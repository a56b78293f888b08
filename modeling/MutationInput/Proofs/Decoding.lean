import MutationInput.Proofs.Binding
import MutationInput.Proofs.Json.Values

/-!
# The two ways of decoding variables

Variables are decoded from a text, or from the value to which a text was parsed before. The first
way meets the members of an object one after the other, as they are written; the second way is
handed objects that are sorted, each name once. Both ways end at the same bindings,
`decodings_agree`: a name is bound to what was written last under it, at every depth, and only the
order in which the variables are listed tells the two apart. Whatever is decoded from a text is
well-formed, `Variables.wellFormed_of_parse`.
-/
namespace MutationInput

namespace Json

/-- The binding for which a value stands as it is written. A list has a binding for each item in
its place; a mapping has each name among the members once, and binds it to what the last of its
values stands for. -/
inductive StandsFor : Json → Binding → Prop where
  | null : StandsFor .null (.scalar .null)
  | bool (b : Bool) : StandsFor (.bool b) (.scalar (.boolean b))
  | number (n : Number) : StandsFor (.number n) (.scalar (.number n))
  | string (s : String) : StandsFor (.string s) (.scalar (.string s))
  | array {items : List Json} {bindings : List Binding}
      (length_eq : bindings.length = items.length)
      (each : ∀ i (hi : i < items.length) (hb : i < bindings.length),
        StandsFor items[i] bindings[i]) :
      StandsFor (.array items) (.list bindings)
  | object {members : List (String × Json)} {entries : List (String × Binding)}
      (last : String → Json) (distinct : (entries.map Prod.fst).Nodup)
      (names : ∀ k, k ∈ entries.map Prod.fst ↔ k ∈ members.map Prod.fst)
      (is_last : ∀ k ∈ members.map Prod.fst, Dict.IsLast members k (last k))
      (each : ∀ e ∈ entries, StandsFor (last e.1) e.2) :
      StandsFor (.object members) (.mapping entries)

/-- Sorting the objects first leads to the binding for which the value stands as it is written. -/
theorem standsFor_ofJson_canonical (j : Json) : j.StandsFor (Binding.ofJson j.canonical) := by
  induction j using forall_of_parts with
  | scalar j is_scalar =>
      cases j with
      | null => exact .null
      | bool b => exact .bool b
      | number n => exact .number n
      | string s => exact .string s
      | array items => exact is_scalar.elim
      | object members => exact is_scalar.elim
  | array items ih =>
      rw [canonical, Binding.ofJson, canonicalItems_eq_map, Binding.ofItems_eq_map, List.map_map]
      refine .array (List.length_map _) fun i hi hb => ?_
      rw [List.getElem_map]
      exact ih items[i] (List.getElem_mem hi)
  | object members ih =>
      rw [canonical, ofMembers, Binding.ofJson, canonicalMembers_eq_map, Binding.ofMembers_eq_map]
      obtain ⟨last, is_last⟩ := Dict.exists_last members .null
      refine .object last ?_ ?_ is_last ?_
      · exact nodup_map_sortMembers Binding.ofJson (members.map fun e => (e.1, e.2.canonical))
      · intro k
        simp only [List.map_map, List.mem_map, Function.comp_apply, Prod.exists]
        constructor
        · rintro ⟨k, j, he, rfl⟩
          obtain ⟨j', hj', -⟩ := mem_sortMembers_canonical_iff.mp he
          simpa using hj'.mem_keys
        · rintro ⟨k, j, he, rfl⟩
          obtain ⟨j', hj'⟩ := Dict.exists_isLast (List.mem_map_of_mem (f := Prod.fst) he)
          exact ⟨k, j'.canonical, mem_sortMembers_canonical_iff.mpr ⟨j', hj', rfl⟩, rfl⟩
      · intro e he
        obtain ⟨⟨k, j⟩, hkj, rfl⟩ := List.mem_map.mp he
        obtain ⟨j', hj', rfl⟩ := mem_sortMembers_canonical_iff.mp hkj
        have heq : j' = last k := hj'.unique (is_last k hj'.mem_keys)
        rw [← heq]
        exact ih (k, j') hj'.mem

end Json

namespace Binding

theorem same_self_list {items : List Binding} (h : ∀ b ∈ items, b.same b = true) :
    (list items).same (list items) = true := by
  have hitems := sameItems_map (f := id) h
  rwa [List.map_id] at hitems

theorem same_self_mapping {entries : List (String × Binding)}
    (distinct : (entries.map Prod.fst).Nodup) (h : ∀ e ∈ entries, e.2.same e.2 = true) :
    (mapping entries).same (mapping entries) = true := by
  rw [same, sameEntries_of_mem distinct fun e he => ⟨e.2, he, h e he⟩]
  simp

/-- A binding that was read from a text is equal to itself, for no number in it is a NaN. -/
theorem same_self_of_readTree {d : Nat} {s rest : Json.Source} {j : Json}
    (h : Json.readTree d s = .ok (j, rest)) :
    (ofJson j.canonical).same (ofJson j.canonical) = true := by
  refine Json.forall_of_readTree
    (P := fun _ j => (ofJson j.canonical).same (ofJson j.canonical) = true) ?_ ?_ ?_ h
  · intro d s j rest read
    have hscalar := Json.isScalar_of_readValueWith read
    cases j with
    | number n =>
        have hfits := Json.overflows_of_readValueWith read
        cases n with
        | integer n => simp [Json.canonical, ofJson, same, Scalar.same, Number.same]
        | float x =>
            have hfinite : x.magnitudeWord < Binary64.infinityWord := by
              simpa [Number.overflows, Binary64.isFinite] using hfits
            have hnumber : x.isNaN = false := by
              simpa [Binary64.isNaN] using Nat.le_of_lt hfinite
            simp [Json.canonical, ofJson, same, Scalar.same, Number.same, Binary64.same, hnumber]
    | array items => exact hscalar.elim
    | object members => exact hscalar.elim
    | _ => simp [Json.canonical, ofJson, same, Scalar.same]
  · intro d items ih
    rw [Json.canonical, Json.canonicalItems_eq_map, ofJson, ofItems_eq_map]
    apply same_self_list
    simpa using ih
  · intro d members ih
    rw [Json.canonical, Json.ofMembers, Json.canonicalMembers_eq_map, ofJson, ofMembers_eq_map]
    apply same_self_mapping
    · exact Json.nodup_map_sortMembers ofJson (members.map fun e => (e.1, e.2.canonical))
    · intro e he
      obtain ⟨e', he', rfl⟩ := List.mem_map.mp he
      obtain ⟨e'', he'', rfl⟩ := List.mem_map.mp (Json.mem_of_mem_sortMembers he')
      exact ih e'' he''

end Binding

/-! ## Decoding as a reading of what is written -/

namespace Json

/-- The members of an object are decoded as they are written. -/
theorem Decoder.read_entries_eq_ok_iff {α : Type} {decoder : Decoder α} {f : Json → α} {d : Nat}
    (hread : decoder.read d = imageReader f (readTree d)) {s rest : Source}
    {es : List (String × α)} :
    decoder.entries.read (d + 1) s = .ok (es, rest) ↔
      ∃ members, readTree (d + 1) s = .ok (.object members, rest) ∧
        members.map (fun e => (e.1, f e.2)) = es := by
  constructor
  · intro h
    simp only [Decoder.entries] at h
    split at h
    · next brace =>
        rw [hread, readEntries_image] at h
        obtain ⟨⟨members, rest'⟩, hmembers, hes⟩ := map_eq_ok_iff.mp h
        cases hes
        refine ⟨members, ?_, rfl⟩
        simp only [readTree, readTreeWith, brace, hmembers]
        rfl
    · exact absurd h (refuse_ne_ok _ _)
  · rintro ⟨members, htree, rfl⟩
    cases treeAt_of_readTree htree with
    | scalar no_array no_object is_scalar read => exact is_scalar.elim
    | object brace read =>
        simp only [Decoder.entries, brace, hread, readEntries_image, imageReader, read]
        rfl

/-- A reader of images reads the image of the value that is written. -/
theorem readAll_image_eq_ok_iff {α : Type} {read : Reader α} {f : Json → α}
    (hread : ∀ d, read d = imageReader f (readTree d)) {s : Source} {x : α} :
    readAll read s = .ok x ↔ ∃ tree, readAll readTree s = .ok tree ∧ f tree = x := by
  simp only [readAll_eq_ok_iff, hread, imageReader, map_eq_ok_iff, Prod.ext_iff, Prod.exists]
  constructor
  · rintro ⟨rest, ⟨tree, _, hread, rfl, rfl⟩, hrest⟩
    exact ⟨tree, ⟨_, hread, hrest⟩, rfl⟩
  · rintro ⟨tree, ⟨rest, hread, hrest⟩, rfl⟩
    exact ⟨rest, ⟨tree, rest, hread, rfl, rfl⟩, hrest⟩

/-- A text is parsed to the value that is written, with its objects sorted. -/
theorem parse_eq_ok_iff {s : Source} {j : Json} :
    parse s = .ok j ↔ ∃ tree, readAll readTree s = .ok tree ∧ tree.canonical = j :=
  readAll_image_eq_ok_iff readValue_eq

end Json

namespace Variables

/-- The variables that members bind as they are written, a name to the last of its values. -/
def ofWritten (members : List (String × Json)) : Variables :=
  Dict.ofList (members.map fun e => (e.1, Binding.ofJson e.2.canonical))

/-- A text is decoded where it is that of an object, and to what its members bind. -/
theorem parse_eq_ok_iff {text : String} {v : Variables} :
    parse text = .ok v ↔
      ∃ members, Json.readAll Json.readTree (Text.ofString text) = .ok (.object members) ∧
        ofWritten members = v := by
  have hentries {s rest : Json.Source} {es : List (String × Binding)} :
      Binding.decoder.entries.read Json.maxDepth s = .ok (es, rest) ↔ _ :=
    Json.Decoder.read_entries_eq_ok_iff (Binding.decoder_read 126)
  simp only [parse, Json.Decoder.parse, Json.readAll_eq_ok_iff, decoder, Json.Decoder.map,
    map_eq_ok_iff, Prod.ext_iff, Prod.exists]
  constructor
  · rintro ⟨rest, ⟨es, rest', hread, rfl, rfl⟩, hrest⟩
    obtain ⟨members, htree, rfl⟩ := hentries.mp hread
    exact ⟨members, ⟨rest', htree, hrest⟩, rfl⟩
  · rintro ⟨members, ⟨rest, htree, hrest⟩, rfl⟩
    exact ⟨rest, ⟨_, rest, hentries.mpr ⟨members, htree, rfl⟩, rfl, rfl⟩, hrest⟩

/-- The variables that a value binds, which has to be an object. -/
theorem ofJson_eq_ok_iff {j : Json} {w : Variables} :
    ofJson j = .ok w ↔
      ∃ members, j = .object members ∧
        Dict.ofList (members.map fun e => (e.1, Binding.ofJson e.2)) = w := by
  have hmembers (members : List (String × Json)) :
      ofJson (.object members) =
        .ok (Dict.ofList (members.map fun e => (e.1, Binding.ofJson e.2))) := by
    refine map_eq_ok_iff.mpr ⟨_, mapM_eq_ok_iff.mpr ?_, rfl⟩
    rw [List.forall₂_map_right_iff, List.forall₂_same]
    exact fun e _ => rfl
  constructor
  · intro h
    cases j with
    | object members =>
        rw [hmembers] at h
        exact ⟨members, rfl, Except.ok.inj h⟩
    | _ => cases h
  · rintro ⟨members, rfl, rfl⟩
    exact hmembers members

/-- What the two ways make of the members of an object: `direct` from the text and `through` a
value. The names stand in the order in which they appear first or in ascending order, and apart
from that the variables are equal. Each name is bound to what its last value stands for. -/
structure AgreeUpToOrder (members : List (String × Json)) (direct through : Variables) : Prop where
  appearance : direct.keys = (members.map Prod.fst).eraseDups
  ascending : through.keys.Pairwise (· < ·)
  perm : direct.entries.Perm through.entries
  same : direct.same through = true
  last : ∀ e ∈ direct.entries, ∃ j, Dict.IsLast members e.1 j ∧ j.StandsFor e.2

/-- Variables are equal to those with the same entries in another order, if every binding is equal
to itself. -/
theorem same_of_perm {v w : Variables} (h : v.entries.Perm w.entries)
    (hself : ∀ e ∈ v.entries, e.2.same e.2 = true) : v.same w = true := by
  have hfound : ∀ e ∈ v.entries, w.get? e.1 = some e.2 := fun e he =>
    (Dict.get?_eq_some_iff w e.1 e.2).mpr (h.mem_iff.mp he)
  have hsize : v.size = w.size := h.length_eq
  simp only [Variables.same, Dict.same, hsize, beq_self_eq_true, Bool.true_and, List.all_eq_true]
  intro e he
  rw [hfound e he]
  exact hself e he

/-- The variables that members bind once they are sorted at every depth. -/
def ofSorted (members : List (String × Json)) : Variables :=
  Dict.ofList ((Json.sortMembers (Json.canonicalMembers members)).map
    fun e => (e.1, Binding.ofJson e.2))

theorem entries_ofSorted (members : List (String × Json)) :
    (ofSorted members).entries =
      (Json.sortMembers (Json.canonicalMembers members)).map
        fun e => (e.1, Binding.ofJson e.2) :=
  Dict.entries_ofList (Json.nodup_map_sortMembers Binding.ofJson (Json.canonicalMembers members))

theorem perm_ofWritten_ofSorted (members : List (String × Json)) :
    (ofWritten members).entries.Perm (ofSorted members).entries := by
  have hwritten : (ofWritten members).entries =
      (Dict.ofList (Json.canonicalMembers members)).entries.map
        fun e => (e.1, Binding.ofJson e.2) := by
    rw [Json.canonicalMembers_eq_map, Dict.ofList_map Json.canonical, ofWritten,
      Dict.ofList_map fun j : Json => Binding.ofJson j.canonical]
    simp [Dict.mapValues]
  rw [hwritten, entries_ofSorted]
  exact (Json.perm_sortMembers_ofList (Json.canonicalMembers members)).symm.map _

/-- Each name is bound to what its last value stands for. -/
theorem exists_isLast_of_mem_ofWritten {members : List (String × Json)} {e : String × Binding}
    (h : e ∈ (ofWritten members).entries) :
    ∃ j, Dict.IsLast members e.1 j ∧ Binding.ofJson j.canonical = e.2 := by
  have hlast := Dict.mem_entries_ofList_iff.mp (h : (e.1, e.2) ∈ (ofWritten members).entries)
  exact (Dict.isLast_map_iff (f := fun j : Json => Binding.ofJson j.canonical)).mp hlast

/-- Variables that are decoded from a text are well-formed. -/
theorem wellFormed_of_parse {text : String} {v : Variables} (h : parse text = .ok v) :
    v.WellFormed := by
  obtain ⟨members, -, rfl⟩ := parse_eq_ok_iff.mp h
  intro e he
  obtain ⟨j, -, hbinding⟩ := exists_isLast_of_mem_ofWritten he
  exact hbinding ▸ Binding.wellFormed_ofJson_canonical j

theorem agreeUpToOrder_of_readTree {d : Nat} {s rest : Json.Source} {members : List (String × Json)}
    (h : Json.readTree d s = .ok (.object members, rest)) :
    AgreeUpToOrder members (ofWritten members) (ofSorted members) where
  appearance := by simp [ofWritten, Dict.keys_ofList, Function.comp_def]
  ascending := by
    rw [Dict.keys, entries_ofSorted, List.map_map]
    exact List.pairwise_map.mpr (Json.ascending_sortMembers (Json.canonicalMembers members))
  perm := perm_ofWritten_ofSorted members
  same := by
    refine same_of_perm (perm_ofWritten_ofSorted members) fun e he => ?_
    obtain ⟨j, hlast, hbinding⟩ := exists_isLast_of_mem_ofWritten he
    cases Json.treeAt_of_readTree h with
    | scalar no_array no_object is_scalar read => exact is_scalar.elim
    | object brace read =>
        obtain ⟨t, r, hread⟩ := Json.exists_read_of_readEntries read hlast.mem
        exact hbinding ▸ Binding.same_self_of_readTree hread
  last := by
    intro e he
    obtain ⟨j, hlast, hbinding⟩ := exists_isLast_of_mem_ofWritten he
    exact ⟨j, hlast, hbinding ▸ j.standsFor_ofJson_canonical⟩

/-- Decoding a text and decoding the value of a text succeed for the same texts, those of objects,
and agree there. For every other text both fail. -/
theorem decodings_agree (text : String) :
    (∃ members direct j through,
        Json.readAll Json.readTree (Text.ofString text) = .ok (.object members) ∧
        parse text = .ok direct ∧ Json.parse (Text.ofString text) = .ok j ∧
        ofJson j = .ok through ∧ AgreeUpToOrder members direct through) ∨
      (¬∃ members, Json.readAll Json.readTree (Text.ofString text) = .ok (.object members)) ∧
        (∃ fault, parse text = .error fault) ∧
        ∀ j, Json.parse (Text.ofString text) = .ok j → ∃ mismatch, ofJson j = .error mismatch := by
  by_cases h : ∃ members, Json.readAll Json.readTree (Text.ofString text) = .ok (.object members)
  · obtain ⟨members, hmembers⟩ := h
    obtain ⟨rest, hread, -⟩ := Json.readAll_eq_ok_iff.mp hmembers
    exact .inl ⟨members, _, _, _, hmembers, parse_eq_ok_iff.mpr ⟨members, hmembers, rfl⟩,
      Json.parse_eq_ok_iff.mpr ⟨_, hmembers, rfl⟩, ofJson_eq_ok_iff.mpr ⟨_, rfl, rfl⟩,
      agreeUpToOrder_of_readTree hread⟩
  · refine .inr ⟨h, ?_, ?_⟩
    · cases hparse : parse text with
      | error fault => exact ⟨fault, rfl⟩
      | ok v =>
          obtain ⟨members, hmembers, -⟩ := parse_eq_ok_iff.mp hparse
          exact absurd ⟨members, hmembers⟩ h
    · intro j hj
      obtain ⟨tree, htree, rfl⟩ := Json.parse_eq_ok_iff.mp hj
      cases hw : ofJson tree.canonical with
      | error mismatch => exact ⟨mismatch, rfl⟩
      | ok w =>
          obtain ⟨sorted, hsorted, -⟩ := ofJson_eq_ok_iff.mp hw
          cases tree with
          | object members => exact absurd ⟨members, htree⟩ h
          | _ => cases hsorted

example :
    let text := "\x7b\"b\": 1, \"a\": 2, \"b\": 3\x7d"
    let through := do ofJson (← (Json.parse (Text.ofString text)).toOption) |>.toOption
    (parse text).toOption.map Dict.keys = some ["b", "a"] ∧
      through.map Dict.keys = some ["a", "b"] := by
  decide +kernel

end Variables

end MutationInput
