import MutationInput.Proofs.Decoding
import MutationInput.Proofs.Insertions
import MutationInput.Proofs.Json.Alike
import MutationInput.Proofs.Provided.Names
import MutationInput.Proofs.Text.Encoding

/-!
# The order of provided names

A literal provides its names as they are written, and a mapping in ascending order. A mapping has
no order of its own, and neither have the objects of the text from which it was decoded, so the
names depend on neither: `fieldNames_ordered`.
-/
namespace MutationInput

/-! ## Ascending names -/

/-- The names are the keys, in the order of their code points, which is that of the bytes that
encode them. As the order is strict, there is each of them once. -/
structure AscendingKeys (names keys : List String) : Prop where
  ascending : names.Pairwise (· < ·)
  bytes_ascending : names.Pairwise fun a b => Text.encode a < Text.encode b
  mem_iff : ∀ k, k ∈ names ↔ k ∈ keys

/-- The keys of a mapping, sorted. -/
theorem ascendingKeys_sortNames {α : Type} (entries : List (String × α)) :
    AscendingKeys (sortNames (Dict.ofList entries).keys) (entries.map Prod.fst) where
  ascending := pairwise_sortNames (Dict.nodup_keys _)
  bytes_ascending :=
    (pairwise_sortNames (Dict.nodup_keys _)).imp fun h => Text.encode_lt_encode_iff.mpr h
  mem_iff := fun k => by rw [mem_sortNames, Dict.keys_ofList, List.mem_eraseDups]

/-- A value lists the keys in ascending order and reports nothing. -/
def ArgumentClass.ListsAscending (c : ArgumentClass) (bindings : Variables) (keys : List String) :
    Prop :=
  ∃ names, c.fieldNames bindings = .silent (.ok names) ∧ AscendingKeys names keys

namespace ArgumentClass

variable {bindings : Variables} {name : String}

theorem fieldNames_mapping {entries : List (String × Binding)}
    (hb : bindings.get? name = some (.mapping entries)) :
    (variableReference name).fieldNames bindings =
      .silent (.ok (sortNames (Dict.ofList entries).keys)) := by
  simp only [fieldNames, hb, Binding.entries?]

theorem listsAscending_mapping {entries : List (String × Binding)}
    (hb : bindings.get? name = some (.mapping entries)) :
    (variableReference name).ListsAscending bindings (entries.map Prod.fst) :=
  ⟨_, fieldNames_mapping hb, ascendingKeys_sortNames entries⟩

/-- No value lists a name twice. -/
theorem nodup_fieldNames {c : ArgumentClass} {names : List String}
    (h : (c.fieldNames bindings).result = .ok names) : names.Nodup := by
  cases c with
  | objectLiteral fields =>
      cases h
      exact Dict.nodup_keys fields
  | variableReference name =>
      cases hb : bindings.get? name with
      | none =>
          simp only [fieldNames, hb] at h
          cases h
          exact List.nodup_nil
      | some b =>
          by_cases hmapping : ∃ entries, b = .mapping entries
          · obtain ⟨entries, rfl⟩ := hmapping
            rw [fieldNames_mapping hb] at h
            cases h
            exact (ascendingKeys_sortNames entries).ascending.nodup
          · simp only [fieldNames, hb, Binding.entries?_eq_none (not_exists.mp hmapping)] at h
            cases h
  | other v => cases h

/-- The names of a literal stand as they are first written. -/
theorem fieldNames_object (fields : List (String × Value)) :
    ∃ names, (Value.object fields).classify.fieldNames bindings = .silent (.ok names) ∧
      InFirstOrder names (fields.map Prod.fst) := by
  refine ⟨_, rfl, ?_⟩
  rw [Dict.keys_ofList]
  exact inFirstOrder_eraseDups _

/-- What is listed depends on the bindings only through look-ups. -/
theorem fieldNames_congr {bindings' : Variables} (h : ∀ k, bindings.get? k = bindings'.get? k)
    (c : ArgumentClass) : c.fieldNames bindings = c.fieldNames bindings' := by
  cases c with
  | variableReference name => simp only [fieldNames, h]
  | _ => rfl

end ArgumentClass

/-! ## What was decoded from a text -/

/-- A binding is decoded from a text, or is that of the value to which the text was parsed. -/
inductive Binding.DecodedFrom (b : Binding) (text : String) : Prop where
  | direct (parsed : decoder.parse (Text.ofString text) = .ok b)
  | through {j : Json} (parsed : Json.parse (Text.ofString text) = .ok j) (bound : ofJson j = b)

/-- Variables are decoded from a text, or from the value to which the text was parsed. -/
inductive Variables.DecodedFrom (v : Variables) (text : String) : Prop where
  | direct (parsed : parse text = .ok v)
  | through {j : Json} (parsed : Json.parse (Text.ofString text) = .ok j) (bound : ofJson j = .ok v)

/-- Both ways lead to the binding of the sorted value. -/
theorem Binding.DecodedFrom.eq_ofJson {b : Binding} {text : String} {tree : Json}
    (h : b.DecodedFrom text) (hread : Json.readAll Json.readTree (Text.ofString text) = .ok tree) :
    b = ofJson tree.canonical := by
  cases h with
  | direct parsed =>
      obtain ⟨tree', hread', rfl⟩ := (Json.readAll_image_eq_ok_iff decoder_read).mp parsed
      cases hread.symm.trans hread'
      rfl
  | through parsed bound =>
      obtain ⟨tree', hread', rfl⟩ := Json.parse_eq_ok_iff.mp parsed
      cases hread.symm.trans hread'
      exact bound.symm

/-- A written object stands for a mapping of its names. -/
theorem Json.exists_mapping (members : List (String × Json)) :
    ∃ entries, Binding.ofJson (Json.object members).canonical = .mapping entries ∧
      ∀ k, k ∈ entries.map Prod.fst ↔ k ∈ members.map Prod.fst := by
  have hstands := (Json.object members).standsFor_ofJson_canonical
  generalize Binding.ofJson (Json.object members).canonical = b at hstands
  cases hstands with
  | object _ _ names _ _ => exact ⟨_, rfl, names⟩

/-- The names of a mapping that was written as an object are those that are written there. -/
theorem ArgumentClass.listsAscending_written {bindings : Variables} {name : String}
    {members : List (String × Json)}
    (hb : bindings.get? name = some (Binding.ofJson (Json.object members).canonical)) :
    (variableReference name).ListsAscending bindings (members.map Prod.fst) := by
  obtain ⟨entries, hentries, hkeys⟩ := Json.exists_mapping members
  rw [hentries] at hb
  obtain ⟨names, hnames, hascending⟩ := listsAscending_mapping hb
  refine ⟨names, hnames, hascending.ascending, hascending.bytes_ascending, fun k => ?_⟩
  rw [hascending.mem_iff, hkeys]

namespace Variables

/-- Variables that are decoded from a text are read from an object. -/
theorem DecodedFrom.exists_members {v : Variables} {text : String} (h : v.DecodedFrom text) :
    ∃ members, Json.readAll Json.readTree (Text.ofString text) = .ok (.object members) ∧
      ∀ k, v.get? k = (ofSorted members).get? k := by
  cases h with
  | direct parsed =>
      obtain ⟨members, hread, rfl⟩ := parse_eq_ok_iff.mp parsed
      refine ⟨members, hread, fun k => ?_⟩
      ext b
      rw [Dict.get?_eq_some_iff, Dict.get?_eq_some_iff, (perm_ofWritten_ofSorted members).mem_iff]
  | through parsed bound =>
      obtain ⟨tree, hread, rfl⟩ := Json.parse_eq_ok_iff.mp parsed
      obtain ⟨sorted, hsorted, rfl⟩ := ofJson_eq_ok_iff.mp bound
      cases tree with
      | object members =>
          cases hsorted
          exact ⟨members, hread, fun _ => rfl⟩
      | _ => cases hsorted

theorem get?_ofSorted {members : List (String × Json)} {k : String} {j : Json}
    (h : Dict.IsLast members k j) :
    (ofSorted members).get? k = some (Binding.ofJson j.canonical) := by
  rw [Dict.get?_eq_some_iff, ← (perm_ofWritten_ofSorted members).mem_iff]
  exact Dict.mem_entries_ofList_iff.mpr
    ((Dict.isLast_map_iff (f := fun j : Json => Binding.ofJson j.canonical)).mpr ⟨j, h, rfl⟩)

/-- Objects with the same sorted form bind the same. -/
theorem ofSorted_eq_of_canonical_eq {ms ms' : List (String × Json)}
    (h : (Json.object ms).canonical = (Json.object ms').canonical) :
    ofSorted ms = ofSorted ms' := by
  simp only [Json.canonical, Json.ofMembers, Json.object.injEq] at h
  rw [ofSorted, ofSorted, h]

end Variables

/-! ## The order of names -/

open ArgumentClass (variableReference)

/-- No list of names repeats one. A literal gives its names as they are first written; a mapping
gives them in ascending order, whatever the order and the values it holds, and if it was decoded
from a text, whatever the order and the repetitions there. Where no name is repeated in two texts,
which are equal but for the order of members, all that is listed or refused is the same. -/
theorem fieldNames_ordered :
    (∀ bindings (c : ArgumentClass) names,
      (c.fieldNames bindings).result = .ok names → names.Nodup) ∧
    (∀ bindings fields, ∃ names,
      (Value.object fields).classify.fieldNames bindings = .silent (.ok names) ∧
        InFirstOrder names (fields.map Prod.fst)) ∧
    (∀ bindings name entries, bindings.get? name = some (.mapping entries) →
      (variableReference name).ListsAscending bindings (entries.map Prod.fst) ∧
        ∀ bindings' entries', bindings'.get? name = some (.mapping entries') →
          (∀ k, k ∈ entries.map Prod.fst ↔ k ∈ entries'.map Prod.fst) →
            (variableReference name).fieldNames bindings =
              (variableReference name).fieldNames bindings') ∧
    (∀ text members, Json.readAll Json.readTree (Text.ofString text) = .ok (.object members) →
      (∀ v name ms, Variables.DecodedFrom v text → Dict.IsLast members name (.object ms) →
        (variableReference name).ListsAscending v (ms.map Prod.fst)) ∧
      ∀ b bindings name, Binding.DecodedFrom b text → bindings.get? name = some b →
        (variableReference name).ListsAscending bindings (members.map Prod.fst)) ∧
    ∀ text text' tree tree', Json.readAll Json.readTree (Text.ofString text) = .ok tree →
      Json.readAll Json.readTree (Text.ofString text') = .ok tree' →
      tree.Distinct → tree'.Distinct → tree.Alike Eq tree' →
        (∀ v v', Variables.DecodedFrom v text → Variables.DecodedFrom v' text' →
          ∀ c : ArgumentClass, c.fieldNames v = c.fieldNames v') ∧
        ∀ b b', Binding.DecodedFrom b text → Binding.DecodedFrom b' text' →
          ∀ (bindings : Variables) name (c : ArgumentClass),
            c.fieldNames (bindings.insert name b) = c.fieldNames (bindings.insert name b') := by
  refine ⟨fun _ _ _ => ArgumentClass.nodup_fieldNames,
    fun _ => ArgumentClass.fieldNames_object, ?_, ?_, ?_⟩
  · intro bindings name entries hb
    refine ⟨ArgumentClass.listsAscending_mapping hb, fun bindings' entries' hb' hkeys => ?_⟩
    rw [ArgumentClass.fieldNames_mapping hb, ArgumentClass.fieldNames_mapping hb',
      sortNames_keys_eq hkeys]
  · intro text members hread
    refine ⟨fun v name ms hv hlast => ?_, fun b bindings name hb hget => ?_⟩
    · obtain ⟨members', hread', hget⟩ := hv.exists_members
      cases hread.symm.trans hread'
      apply ArgumentClass.listsAscending_written
      rw [hget, Variables.get?_ofSorted hlast]
    · apply ArgumentClass.listsAscending_written
      rw [hget, hb.eq_ofJson hread]
  · intro text text' tree tree' hread hread' hdistinct hdistinct' halike
    have hcanonical : tree.canonical = tree'.canonical :=
      halike.canonical_eq hdistinct hdistinct'
    refine ⟨fun v v' hv hv' c => ?_, fun b b' hb hb' bindings name c => ?_⟩
    · obtain ⟨members, hmembers, hget⟩ := hv.exists_members
      obtain ⟨members', hmembers', hget'⟩ := hv'.exists_members
      cases hread.symm.trans hmembers
      cases hread'.symm.trans hmembers'
      refine ArgumentClass.fieldNames_congr (fun k => ?_) c
      rw [hget, hget', Variables.ofSorted_eq_of_canonical_eq hcanonical]
    · rw [hb.eq_ofJson hread, hb'.eq_ofJson hread', hcanonical]

/-- An object that binds a name to an object of objects. -/
def Json.patch : Json :=
  .object [("patch", .object [("b", .null), ("a", .object [("q", .null), ("p", .bool true)])])]

/-- The same object with its members in another order, at each depth. -/
def Json.patchReordered : Json :=
  .object [("patch", .object [("a", .object [("p", .bool true), ("q", .null)]), ("b", .null)])]

/-- An object with a name that is repeated. -/
def Json.patchRepeated : Json :=
  .object [("patch", .object [("b", .null), ("a", .null), ("b", .bool true)])]

/-- A repeated name is listed once, and the order of members has no effect. -/
theorem fieldNames_ordered_patch :
    (∃ v, Variables.parse Json.patchRepeated.compact = .ok v ∧
      (ArgumentClass.variableReference "patch").ListsAscending v ["b", "a", "b"]) ∧
    ∃ v v', Variables.parse Json.patch.compact = .ok v ∧
      Variables.parse Json.patchReordered.compact = .ok v' ∧
      (ArgumentClass.variableReference "patch").fieldNames v =
        (ArgumentClass.variableReference "patch").fieldNames v' := by
  obtain ⟨-, -, -, hwritten, halike⟩ := fieldNames_ordered
  refine ⟨?_, ?_⟩
  · have hread : Json.readAll Json.readTree (Text.ofString Json.patchRepeated.compact) =
        .ok Json.patchRepeated :=
      Json.readAll_readTree_compact (by simp [Json.patchRepeated]) (by decide)
    have hparse := Variables.parse_eq_ok_iff.mpr ⟨_, hread, rfl⟩
    exact ⟨_, hparse, (hwritten _ _ hread).1 _ _ _ (.direct hparse) ⟨[], [], rfl, by simp⟩⟩
  · have hread : Json.readAll Json.readTree (Text.ofString Json.patch.compact) =
        .ok Json.patch :=
      Json.readAll_readTree_compact (by simp [Json.patch]) (by decide)
    have hread' : Json.readAll Json.readTree (Text.ofString Json.patchReordered.compact) =
        .ok Json.patchReordered :=
      Json.readAll_readTree_compact (by simp [Json.patchReordered]) (by decide)
    have hnull : Json.null.Distinct := .scalar trivial
    have hbool : ∀ b, (Json.bool b).Distinct := fun b => .scalar trivial
    have hdistinct : Json.patch.Distinct := by
      have hinner : (Json.object [("q", .null), ("p", .bool true)]).Distinct :=
        .object (by decide) (by simp [hnull, hbool])
      refine .object (by decide) ?_
      simpa using .object (by decide) (by simp [hnull, hinner])
    have hdistinct' : Json.patchReordered.Distinct := by
      have hinner : (Json.object [("p", .bool true), ("q", .null)]).Distinct :=
        .object (by decide) (by simp [hnull, hbool])
      refine .object (by decide) ?_
      simpa using .object (by decide) (by simp [hnull, hinner])
    have hcanonical : Json.patch.canonical = Json.patchReordered.canonical := rfl
    have hsame := (Json.alike_iff_canonical_eq hdistinct hdistinct').mpr hcanonical
    have hparse := Variables.parse_eq_ok_iff.mpr ⟨_, hread, rfl⟩
    have hparse' := Variables.parse_eq_ok_iff.mpr ⟨_, hread', rfl⟩
    exact ⟨_, _, hparse, hparse', (halike _ _ _ _ hread hread' hdistinct hdistinct' hsame).1 _ _
      (.direct hparse) (.direct hparse') _⟩

end MutationInput
