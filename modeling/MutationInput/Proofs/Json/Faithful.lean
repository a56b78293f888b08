import MutationInput.Json.Decode
import MutationInput.Proofs.Json.Accord

/-!
# Decoding from text and from values

A decoder is *faithful* if it decodes from a text what it decodes from the value that the text
denotes, for every text in which no object repeats a name. Each way of building a decoder from
others keeps that.
-/
namespace MutationInput.Json

/-- No object in a value repeats a name. -/
inductive Distinct : Json → Prop where
  | scalar {j : Json} (is_scalar : j.IsScalar) : Distinct j
  | array {items : List Json} (items_distinct : ∀ j ∈ items, Distinct j) : Distinct (.array items)
  | object {members : List (String × Json)} (nodup : (members.map Prod.fst).Nodup)
      (values_distinct : ∀ e ∈ members, Distinct e.2) : Distinct (.object members)

/-- A decoder does with a text what it does with the value that the text denotes. -/
def Decoder.Faithful {α : Type} (decoder : Decoder α) : Prop :=
  ∀ ⦃d s j rest⦄, readTree d s = .ok (j, rest) → j.Distinct →
    Accords rest (decoder.ofJson j.canonical) (decoder.read d s)

theorem readValue_of_readTree {d : Nat} {s rest : Source} {j : Json}
    (h : readTree d s = .ok (j, rest)) : readValue d s = .ok (j.canonical, rest) := by
  rw [readValue_eq, imageReader, h]
  rfl

/-- A value of the wrong type is refused. -/
theorem exists_refuse_eq_error {α : Type} (s : Source) :
    ∃ fault, (refuse s : Except Fault (α × Source)) = .error fault := by
  unfold refuse
  split
  · exact ⟨_, rfl⟩
  · exact ⟨_, rfl⟩
  · cases readValueWith none (skipGap s) with
    | error fault => exact ⟨_, rfl⟩
    | ok r => exact ⟨_, rfl⟩

theorem refuse_ne_ok {α : Type} (s : Source) (r : α × Source) : refuse s ≠ .ok r := by
  intro h
  obtain ⟨fault, hrefuse⟩ := exists_refuse_eq_error (α := α) s
  cases h.symm.trans hrefuse

theorem accords_refuse {α : Type} (e : Mismatch) (s rest : Source) :
    Accords rest (.error e) (refuse s : Except Fault (α × Source)) := by
  obtain ⟨fault, h⟩ := exists_refuse_eq_error s
  rw [h]
  exact .error e fault

namespace Decoder

variable {α β : Type}

theorem accords_value {d : Nat} {s rest : Source} {j : Json}
    (h : readTree d s = .ok (j, rest)) :
    Accords rest (value.ofJson j.canonical) (value.read d s) := by
  change Accords rest (.ok j.canonical) (readValue d s)
  rw [readValue_of_readTree h]
  exact .ok _

theorem faithful_value : value.Faithful := fun _ _ _ _ h _ => accords_value h

theorem Faithful.map {decoder : Decoder α} (h : decoder.Faithful) (f : α → β) :
    (decoder.map f).Faithful := fun _ _ _ _ hread hdistinct => (h hread hdistinct).map f

/-- A decoder of scalars has nothing for arrays and objects. -/
theorem accords_scalar {f : Json → Except Mismatch α}
    (harray : ∀ items, ∃ e, f (.array items) = .error e)
    (hobject : ∀ members, ∃ e, f (.object members) = .error e) {d : Nat} {s rest : Source} {j : Json}
    (h : readTree d s = .ok (j, rest)) :
    Accords rest ((scalar f).ofJson j.canonical) ((scalar f).read d s) := by
  cases treeAt_of_readTree h with
  | scalar no_array no_object is_scalar read =>
      rw [canonical_of_isScalar is_scalar]
      simp only [scalar, readScalar, read, bind, Except.bind]
      cases f j with
      | ok x => exact .ok x
      | error e => exact .error e _
  | @array _ _ _ _ items bracket read =>
      obtain ⟨e, he⟩ := harray (canonicalItems items)
      simp only [scalar, readScalar, bracket, canonical, he]
      exact .error e _
  | @object _ _ _ _ members brace read =>
      obtain ⟨e, he⟩ := hobject (sortMembers (canonicalMembers members))
      simp only [scalar, readScalar, brace, canonical, ofMembers, he]
      exact .error e _

theorem accords_string {d : Nat} {s rest : Source} {j : Json}
    (h : readTree d s = .ok (j, rest)) :
    Accords rest (string.ofJson j.canonical) (string.read d s) :=
  accords_scalar (fun _ => ⟨_, rfl⟩) (fun _ => ⟨_, rfl⟩) h

theorem accords_unsigned {d : Nat} {s rest : Source} {j : Json}
    (h : readTree d s = .ok (j, rest)) :
    Accords rest (unsigned.ofJson j.canonical) (unsigned.read d s) :=
  accords_scalar (fun _ => ⟨_, rfl⟩) (fun _ => ⟨_, rfl⟩) h

theorem faithful_string : string.Faithful := fun _ _ _ _ h _ => accords_string h

theorem faithful_unsigned : unsigned.Faithful := fun _ _ _ _ h _ => accords_unsigned h

/-- Null is what begins with its first letter. -/
theorem skipGap_of_readValueWith_null {s rest : Source}
    (h : readValueWith none s = .ok (.null, rest)) : ∃ t, skipGap s = .char 'n' :: t := by
  unfold readValueWith at h
  split at h
  · cases h
  · next t hskip => exact ⟨t, hskip⟩
  all_goals
    (try split at h) <;> first
      | cases h
      | obtain ⟨_, _, h⟩ := map_eq_ok_iff.mp h
        cases h

/-- Null is decoded as none, and anything else as it is without the choice. The text decides by its
first letter, the value by being null. -/
theorem optional_cases (decoder : Decoder α) {d : Nat} {s rest : Source} {j : Json}
    (h : readTree d s = .ok (j, rest)) :
    decoder.optional.ofJson j.canonical = .ok none ∧
        decoder.optional.read d s = .ok (none, rest) ∨
      decoder.optional.ofJson j.canonical = (decoder.ofJson j.canonical).map some ∧
        decoder.optional.read d s =
          (decoder.read d (skipGap s)).map fun r => (some r.1, r.2) := by
  cases treeAt_of_readTree h with
  | scalar no_array no_object is_scalar read =>
      rw [canonical_of_isScalar is_scalar]
      by_cases hnull : ∃ t, skipGap s = .char 'n' :: t
      · obtain ⟨t, hnull⟩ := hnull
        simp only [hnull, readValueWith, skipGap_char (c := 'n') rfl] at read
        obtain ⟨t', hexpect, hj'⟩ := map_eq_ok_iff.mp read
        cases hj'
        refine .inl ⟨rfl, ?_⟩
        simp only [Decoder.optional, hnull, hexpect]
        rfl
      · have hne : j ≠ .null := fun hj => hnull (by
          obtain ⟨t, ht⟩ := skipGap_of_readValueWith_null (hj ▸ read)
          exact ⟨t, (skipGap_skipGap s).symm.trans ht⟩)
        refine .inr ⟨?_, ?_⟩
        · cases j with
          | null => exact absurd rfl hne
          | _ => rfl
        · simp only [Decoder.optional]
          split
          · next t ht => exact absurd ⟨t, ht⟩ hnull
          · rfl
  | @array _ _ _ _ items bracket read =>
      refine .inr ⟨rfl, ?_⟩
      simp only [Decoder.optional, bracket]
      rfl
  | @object _ _ _ _ members brace read =>
      refine .inr ⟨rfl, ?_⟩
      simp only [Decoder.optional, brace]
      rfl

theorem Faithful.optional {decoder : Decoder α} (h : decoder.Faithful) :
    decoder.optional.Faithful := by
  intro d s j rest hread hdistinct
  rcases decoder.optional_cases hread with ⟨hjson, htext⟩ | ⟨hjson, htext⟩
  · rw [hjson, htext]
    exact .ok none
  · rw [hjson, htext]
    exact (h ((readTree_skipGap d s).trans hread) hdistinct).map some

theorem Faithful.list {decoder : Decoder α} (h : decoder.Faithful) : decoder.list.Faithful := by
  intro d s j rest hread hdistinct
  cases treeAt_of_readTree hread with
  | scalar no_array no_object is_scalar read =>
      rw [canonical_of_isScalar is_scalar]
      simp only [Decoder.list]
      cases j with
      | array items => exact is_scalar.elim
      | _ => exact accords_refuse _ _ _
  | @object _ _ _ _ members brace read =>
      simp only [Decoder.list, brace, canonical, ofMembers]
      exact .error _ _
  | @array d _ _ _ items bracket read =>
      cases hdistinct with
      | scalar is_scalar => exact is_scalar.elim
      | array items_distinct =>
          simp only [Decoder.list, bracket, canonical, canonicalItems_eq_map, List.mapM_map]
          exact accords_readArray read (shrinks_readTree d) fun t j r _ hj hread =>
            h hread (items_distinct j hj)

/-- The entries of an object, sorted by name. -/
theorem accords_sortedEntries {d : Nat} {s rest : Source} {j : Json}
    (h : readTree d s = .ok (j, rest)) :
    Accords rest ((value.entries.map sortMembers).ofJson j.canonical)
      ((value.entries.map sortMembers).read d s) := by
  cases treeAt_of_readTree h with
  | scalar no_array no_object is_scalar read =>
      rw [canonical_of_isScalar is_scalar]
      simp only [Decoder.map, Decoder.entries]
      cases j with
      | object members => exact is_scalar.elim
      | _ => exact (accords_refuse _ _ _).map sortMembers
  | @array _ _ _ _ items bracket read =>
      simp only [Decoder.map, Decoder.entries, bracket, canonical]
      exact .error _ _
  | @object d _ t _ members brace read =>
      have hentries : readEntries (value.read d) t = .ok (canonicalMembers members, rest) := by
        change readEntries (readValue d) t = _
        rw [readValue_eq, readEntries_image, imageReader, read, canonicalMembers_eq_map]
        rfl
      have hvalues : (sortMembers (canonicalMembers members)).mapM
          (fun e => (value.ofJson e.2).map (e.1, ·)) =
            .ok (sortMembers (canonicalMembers members)) := by
        rw [mapM_eq_ok_iff, List.forall₂_same]
        intro e _
        rfl
      have hjson : (value.entries.map sortMembers).ofJson (Json.object members).canonical =
          .ok (sortMembers (canonicalMembers members)) :=
        map_eq_ok_iff.mpr ⟨_, hvalues, sortMembers_sortMembers _⟩
      have htext : (value.entries.map sortMembers).read (d + 1) s =
          .ok (sortMembers (canonicalMembers members), rest) := by
        simp only [Decoder.map, Decoder.entries, brace, hentries]
        rfl
      rw [hjson, htext]
      exact .ok _

theorem faithful_sortedEntries : (value.entries.map sortMembers).Faithful :=
  fun _ _ _ _ h _ => accords_sortedEntries h

end Decoder

/-! ## Whole texts -/

/-- A text denotes a value, and no object in the text repeats a name. -/
def Denotes (s : Source) (j : Json) : Prop :=
  ∃ tree, readAll readTree s = .ok tree ∧ tree.Distinct ∧ tree.canonical = j

theorem readAll_eq_ok_iff {α : Type} {read : Reader α} {s : Source} {x : α} :
    readAll read s = .ok x ↔ ∃ rest, read maxDepth s = .ok (x, rest) ∧ skipGap rest = [] := by
  rw [readAll, bind_eq_ok_iff]
  constructor
  · rintro ⟨⟨x', rest⟩, hread, h⟩
    dsimp only at h
    split at h
    · next hrest =>
        cases h
        exact ⟨rest, hread, hrest⟩
    · cases h
  · rintro ⟨rest, hread, hrest⟩
    exact ⟨(x, rest), hread, by simp only [hrest]; rfl⟩

theorem Denotes.parse_eq {s : Source} {j : Json} (h : Denotes s j) : parse s = .ok j := by
  obtain ⟨tree, hread, -, rfl⟩ := h
  obtain ⟨rest, htree, hrest⟩ := readAll_eq_ok_iff.mp hread
  exact readAll_eq_ok_iff.mpr ⟨rest, readValue_of_readTree htree, hrest⟩

/-- The members of an object that a text denotes have distinct names. -/
theorem Denotes.nodup {s : Source} {members : List (String × Json)}
    (h : Denotes s (.object members)) : (members.map Prod.fst).Nodup := by
  obtain ⟨tree, -, -, htree⟩ := h
  cases tree with
  | object written =>
      cases htree
      exact (ascending_sortMembers _).nodup
  | _ => cases htree

/-- A faithful decoder makes of a text what it makes of the value that the text denotes. -/
theorem Decoder.Faithful.parse_eq_ok_iff {α : Type} {decoder : Decoder α} (h : decoder.Faithful)
    {s : Source} {j : Json} (hj : Denotes s j) (x : α) :
    decoder.parse s = .ok x ↔ decoder.ofJson j = .ok x := by
  obtain ⟨tree, hread, hdistinct, rfl⟩ := hj
  obtain ⟨rest, htree, hrest⟩ := readAll_eq_ok_iff.mp hread
  have haccords := h htree hdistinct
  rw [Decoder.parse, readAll_eq_ok_iff]
  constructor
  · rintro ⟨rest', hx, -⟩
    rw [hx] at haccords
    generalize decoder.ofJson tree.canonical = r at haccords
    cases haccords
    rfl
  · intro hx
    rw [hx] at haccords
    exact ⟨rest, haccords.eq_ok, hrest⟩

end MutationInput.Json
