import MutationInput.Response.Basic
import MutationInput.Proofs.Dict
import MutationInput.Proofs.Json.Records

/-!
# The body of a response

The body of a response is decoded alike from its bytes and from the JSON value that they denote,
`ResponseBody.faithful_decoder`. It is an object with data and errors, each of which may be absent
or null: `ResponseBody.ofJson_eq_ok_iff`.
-/
namespace MutationInput

open Json (Decoder)
open Json.Record (faithful_storing storing_comm)

/-! ## Decoding from bytes and from values -/

namespace ErrorLocation

theorem regular_record : record.Regular where
  faithful := by
    simp only [record, List.forall_mem_cons]
    refine ⟨?_, ?_, by simp⟩
    · exact faithful_storing Decoder.faithful_unsigned ..
    · exact faithful_storing Decoder.faithful_unsigned ..
  commutes := by
    intro m hm m' hm' hne j j' f f' hf hf' x
    simp only [record, List.mem_cons, List.not_mem_nil, or_false] at hm hm'
    rcases hm with rfl | rfl <;> rcases hm' with rfl | rfl <;> first
      | exact absurd rfl hne
      | exact storing_comm hf hf' (fun _ _ _ => rfl) x

end ErrorLocation

/-- A segment is read whole before it is looked at. -/
theorem PathSegment.faithful_decoder : PathSegment.decoder.Faithful := by
  intro d s j rest h _
  simp only [PathSegment.decoder, Json.readValue_of_readTree h, bind, Except.bind]
  cases PathSegment.ofJson j.canonical with
  | ok x => exact .ok x
  | error e => exact .error e _

namespace ResponseError

theorem regular_record : record.Regular where
  faithful := by
    simp only [record, List.forall_mem_cons]
    refine ⟨?_, ?_, ?_, ?_, by simp⟩
    · exact faithful_storing Decoder.faithful_string ..
    · exact faithful_storing ErrorLocation.regular_record.faithful_decoder.list.optional ..
    · exact faithful_storing PathSegment.faithful_decoder.list.optional ..
    · exact faithful_storing Decoder.faithful_sortedEntries.optional ..
  commutes := by
    intro m hm m' hm' hne j j' f f' hf hf' x
    simp only [record, List.mem_cons, List.not_mem_nil, or_false] at hm hm'
    rcases hm with rfl | rfl | rfl | rfl <;> rcases hm' with rfl | rfl | rfl | rfl <;> first
      | exact absurd rfl hne
      | exact storing_comm hf hf' (fun _ _ _ => rfl) x

end ResponseError

namespace ResponseBody

theorem regular_record : record.Regular where
  faithful := by
    simp only [record, List.forall_mem_cons]
    refine ⟨?_, ?_, by simp⟩
    · exact faithful_storing Decoder.faithful_value.optional ..
    · exact faithful_storing ResponseError.regular_record.faithful_decoder.list.optional ..
  commutes := by
    intro m hm m' hm' hne j j' f f' hf hf' x
    simp only [record, List.mem_cons, List.not_mem_nil, or_false] at hm hm'
    rcases hm with rfl | rfl <;> rcases hm' with rfl | rfl <;> first
      | exact absurd rfl hne
      | exact storing_comm hf hf' (fun _ _ _ => rfl) x

theorem faithful_decoder : decoder.Faithful :=
  regular_record.faithful_decoder

/-! ## Data and errors -/

/-- A member that is absent leaves a field as it is, and one that is there is decoded into it. -/
def Sets {β : Type} (decoder : Decoder β) (member : Option Json) (before after : β) : Prop :=
  match member with
  | none => after = before
  | some j => decoder.ofJson j = .ok after

theorem stores_data_iff {j : Json} {x y : ResponseBody} :
    record.Stores ("data", j) x y ↔
      Decoder.value.optional.ofJson j = .ok y.data ∧ y.errors = x.errors := by
  change (∃ f : ResponseBody → ResponseBody,
    (Decoder.value.optional.ofJson j).map _ = .ok f ∧ y = f x) ↔ _
  simp only [map_eq_ok_iff]
  constructor
  · rintro ⟨_, ⟨d, hd, rfl⟩, rfl⟩
    exact ⟨hd, rfl⟩
  · rintro ⟨hd, he⟩
    exact ⟨_, ⟨y.data, hd, rfl⟩, by cases y; cases x; cases he; rfl⟩

theorem stores_errors_iff {j : Json} {x y : ResponseBody} :
    record.Stores ("errors", j) x y ↔
      ResponseError.decoder.list.optional.ofJson j = .ok y.errors ∧ y.data = x.data := by
  change (∃ f : ResponseBody → ResponseBody,
    (ResponseError.decoder.list.optional.ofJson j).map _ = .ok f ∧ y = f x) ↔ _
  simp only [map_eq_ok_iff]
  constructor
  · rintro ⟨_, ⟨es, hes, rfl⟩, rfl⟩
    exact ⟨hes, rfl⟩
  · rintro ⟨hes, hd⟩
    exact ⟨_, ⟨y.errors, hes, rfl⟩, by cases y; cases x; cases hd; rfl⟩

theorem stores_other_iff {k : String} (hdata : k ≠ "data") (herrors : k ≠ "errors") {j : Json}
    {x y : ResponseBody} : record.Stores (k, j) x y ↔ y = x := by
  have hfind : record.find? k = none := by
    simp [Json.Record.find?, record, Json.Member.storing, hdata.symm, herrors.symm]
  simp only [Json.Record.Stores, hfind]

/-- Storing members whose names do not repeat sets the data and the errors. -/
theorem storeMembers_eq_ok_iff {members : List (String × Json)}
    (hnodup : (members.map Prod.fst).Nodup) {x y : ResponseBody} :
    record.storeMembers members x = .ok y ↔
      Sets Decoder.value.optional (members.lookup "data") x.data y.data ∧
        Sets ResponseError.decoder.list.optional (members.lookup "errors") x.errors y.errors := by
  induction members generalizing x with
  | nil =>
      change Except.ok x = .ok y ↔ y.data = x.data ∧ y.errors = x.errors
      constructor
      · intro h
        cases h
        exact ⟨rfl, rfl⟩
      · rintro ⟨hd, he⟩
        cases x
        cases y
        cases hd
        cases he
        rfl
  | cons e members ih =>
      obtain ⟨k, j⟩ := e
      obtain ⟨hnew, hrest⟩ := List.nodup_cons.mp hnodup
      have habsent : members.lookup k = none := List.lookup_eq_none_iff.mpr fun e he => by
        have hne : k ≠ e.1 := fun hk => hnew (List.mem_map.mpr ⟨e, he, hk.symm⟩)
        simpa using hne
      simp only [Json.Record.storeMembers_cons_eq_ok_iff, ih hrest, Dict.lookup_entry]
      by_cases hdata : k = "data"
      · subst hdata
        simp only [stores_data_iff, habsent, if_true, if_neg (show ¬"errors" = "data" by decide)]
        constructor
        · rintro ⟨x', ⟨hd, he⟩, hkeep, hes⟩
          exact ⟨(show y.data = x'.data from hkeep) ▸ hd, he ▸ hes⟩
        · rintro ⟨hd, hes⟩
          exact ⟨⟨y.data, x.errors⟩, ⟨hd, rfl⟩, rfl, hes⟩
      · by_cases herrors : k = "errors"
        · subst herrors
          simp only [stores_errors_iff, habsent, if_true,
            if_neg (show ¬"data" = "errors" by decide)]
          constructor
          · rintro ⟨x', ⟨hes, hd⟩, hdata', hkeep⟩
            exact ⟨hd ▸ hdata', (show y.errors = x'.errors from hkeep) ▸ hes⟩
          · rintro ⟨hdata', hes⟩
            exact ⟨⟨x.data, y.errors⟩, ⟨hes, rfl⟩, hdata', rfl⟩
        · simp only [stores_other_iff hdata herrors, exists_eq_left, if_neg (Ne.symm hdata),
            if_neg (Ne.symm herrors)]

/-- The member of a name, if it is there and not null. -/
def given? (key : String) (members : List (String × Json)) : Option Json :=
  match members.lookup key with
  | some .null => none
  | member => member

/-- The data and the errors of a body are what the members of an object say: each may be absent or
null, the data may be anything else and the errors a list of errors. -/
structure IsGivenBy (body : ResponseBody) (members : List (String × Json)) : Prop where
  data : body.data = given? "data" members
  no_errors : given? "errors" members = none → body.errors = none
  errors : ∀ j, given? "errors" members = some j →
    ∃ es, ResponseError.decoder.list.ofJson j = .ok es ∧ body.errors = some es

/-- A value, unless it is null. -/
def unlessNull? : Option Json → Option Json
  | some .null => none
  | member => member

theorem sets_unlessNull_iff {β : Type} {decoder : Decoder β} {member : Option Json}
    {after : Option β} :
    Sets decoder.optional member none after ↔
      (unlessNull? member = none → after = none) ∧
        ∀ j, unlessNull? member = some j → ∃ x, decoder.ofJson j = .ok x ∧ after = some x := by
  unfold unlessNull?
  cases member with
  | none => simp [Sets]
  | some j =>
      cases j with
      | null =>
          simp only [Sets, Decoder.optional, Except.ok.injEq, reduceCtorEq, false_implies,
            implies_true, and_true, true_implies]
          exact eq_comm
      | _ => simp [Sets, Decoder.optional, map_eq_ok_iff, @eq_comm _ after]

theorem sets_optional_iff {β : Type} {decoder : Decoder β} {key : String}
    {members : List (String × Json)} {after : Option β} :
    Sets decoder.optional (members.lookup key) none after ↔
      (given? key members = none → after = none) ∧
        ∀ j, given? key members = some j → ∃ x, decoder.ofJson j = .ok x ∧ after = some x :=
  sets_unlessNull_iff

/-- Any value but null may be the data. -/
theorem sets_data_iff {member after : Option Json} :
    Sets Decoder.value.optional member none after ↔ after = unlessNull? member := by
  rw [sets_unlessNull_iff]
  cases unlessNull? member with
  | none => simp
  | some j => simp [Decoder.value]

/-- The body that an object is decoded as. -/
theorem ofJson_eq_ok_iff {members : List (String × Json)} (hnodup : (members.map Prod.fst).Nodup)
    {body : ResponseBody} :
    decoder.ofJson (.object members) = .ok body ↔ body.IsGivenBy members := by
  have hstore : decoder.ofJson (.object members) = record.storeMembers members record.blank := by
    change (record.storeMembers members record.blank >>= fun x => pure x) = _
    exact bind_pure _
  rw [hstore, storeMembers_eq_ok_iff hnodup]
  change Sets _ _ none _ ∧ Sets _ _ none _ ↔ _
  rw [sets_data_iff, sets_optional_iff]
  constructor
  · rintro ⟨hdata, hno, herrors⟩
    exact ⟨hdata, hno, herrors⟩
  · rintro ⟨hdata, hno, herrors⟩
    exact ⟨hdata, hno, herrors⟩

/-- The body that the bytes of an object are decoded as, if no object in them repeats a name. -/
theorem parse_eq_ok_iff {s : Json.Source} {members : List (String × Json)}
    (h : Json.Denotes s (.object members)) {body : ResponseBody} :
    decoder.parse s = .ok body ↔ body.IsGivenBy members := by
  rw [faithful_decoder.parse_eq_ok_iff h, ofJson_eq_ok_iff h.nodup]

end ResponseBody

end MutationInput
