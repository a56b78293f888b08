import MutationInput.Proofs.Decoding
import MutationInput.Proofs.Json.Alike
import Mathlib.Data.List.Perm.Subperm

/-!
# Bindings and JSON values correspond

Every JSON value stands for one binding, and every binding is written as one JSON value: the two
conversions undo one another, and what is equal up to order on one side is so on the other. A
mapping may be listed in any order, so bindings are compared by `Binding.Alike`, which is the
equality of bindings when numbers are compared as they are there, `same_iff_alike`. Variables are
what an object stands for, `bindings_correspond`.
-/
namespace MutationInput

namespace Binding

/-- What holds of scalars and, with all parts, of a list or a mapping, holds of every binding. -/
theorem forall_of_parts {P : Binding → Prop} (scalar : ∀ s, P (.scalar s))
    (list : ∀ items, (∀ b ∈ items, P b) → P (.list items))
    (mapping : ∀ entries : List (String × Binding), (∀ e ∈ entries, P e.2) →
      P (.mapping entries)) : ∀ b, P b
  | .scalar s => scalar s
  | .list items => list items fun b hb =>
      have := List.sizeOf_lt_of_mem hb
      forall_of_parts scalar list mapping b
  | .mapping entries => mapping entries fun e he =>
      have := List.sizeOf_lt_of_mem he
      forall_of_parts scalar list mapping e.2
termination_by b => sizeOf b
decreasing_by
  · simp only [Binding.list.sizeOf_spec]
    omega
  · have hvalue : sizeOf e.2 < sizeOf e := by
      cases e
      simp
    simp only [Binding.mapping.sizeOf_spec]
    omega

/-! ## The conversions undo one another -/

/-- A value comes back from the binding that it stands for. -/
theorem toJson_ofJson (j : Json) : (ofJson j).toJson = j := by
  induction j using Json.forall_of_parts with
  | scalar j is_scalar =>
      cases j with
      | array items => exact is_scalar.elim
      | object members => exact is_scalar.elim
      | _ => rfl
  | array items ih =>
      rw [ofJson, toJson, ofItems_eq_map, toItems_eq_map, List.map_map]
      have hitems : items.map (toJson ∘ ofJson) = items.map id := List.map_congr_left ih
      rw [hitems, List.map_id]
  | object members ih =>
      rw [ofJson, toJson, ofMembers_eq_map, toMembers_eq_map, List.map_map]
      have hmembers : members.map ((fun e => (e.1, e.2.toJson)) ∘ fun e => (e.1, ofJson e.2)) =
          members.map id :=
        List.map_congr_left fun e he => congrArg (Prod.mk e.1) (ih e he)
      rw [hmembers, List.map_id]

/-- A binding is what its value stands for. -/
theorem ofJson_toJson (b : Binding) : ofJson b.toJson = b := by
  induction b using forall_of_parts with
  | scalar s => cases s <;> rfl
  | list items ih =>
      rw [toJson, ofJson, toItems_eq_map, ofItems_eq_map, List.map_map]
      have hitems : items.map (ofJson ∘ toJson) = items.map id := List.map_congr_left ih
      rw [hitems, List.map_id]
  | mapping entries ih =>
      rw [toJson, ofJson, toMembers_eq_map, ofMembers_eq_map, List.map_map]
      have hentries : entries.map ((fun e => (e.1, ofJson e.2)) ∘ fun e => (e.1, e.2.toJson)) =
          entries.map id :=
        List.map_congr_left fun e he => congrArg (Prod.mk e.1) (ih e he)
      rw [hentries, List.map_id]

/-! ## Equality up to order -/

/-- Two bindings are equal but for the order in which mappings are listed, with numbers that are
related by `R`. -/
inductive Alike (R : Number → Number → Prop) : Binding → Binding → Prop where
  | null : Alike R (.scalar .null) (.scalar .null)
  | boolean (b : Bool) : Alike R (.scalar (.boolean b)) (.scalar (.boolean b))
  | number {m n : Number} (related : R m n) :
      Alike R (.scalar (.number m)) (.scalar (.number n))
  | string (s : String) : Alike R (.scalar (.string s)) (.scalar (.string s))
  | list {xs ys : List Binding} (length_eq : xs.length = ys.length)
      (each : ∀ i (hx : i < xs.length) (hy : i < ys.length), Alike R xs[i] ys[i]) :
      Alike R (.list xs) (.list ys)
  | mapping {xs ys : List (String × Binding)}
      (names : ∀ k, k ∈ xs.map Prod.fst ↔ k ∈ ys.map Prod.fst)
      (each : ∀ k x y, (k, x) ∈ xs → (k, y) ∈ ys → Alike R x y) :
      Alike R (.mapping xs) (.mapping ys)

variable {R : Number → Number → Prop}

theorem Alike.toJson {b b' : Binding} (h : b.Alike R b') : b.toJson.Alike R b'.toJson := by
  induction h with
  | null => exact .null
  | boolean b => exact .bool b
  | number related => exact .number related
  | string s => exact .string s
  | list length_eq each ih =>
      rw [Binding.toJson, Binding.toJson, toItems_eq_map, toItems_eq_map]
      refine .array (by simpa using length_eq) fun i hx hy => ?_
      rw [List.length_map] at hx hy
      rw [List.getElem_map, List.getElem_map]
      exact ih i hx hy
  | mapping names each ih =>
      rw [Binding.toJson, Binding.toJson, toMembers_eq_map, toMembers_eq_map]
      refine .object (fun k => ?_) fun k x y hx hy => ?_
      · rw [List.map_map, List.map_map]
        exact names k
      · obtain ⟨⟨k, b⟩, hb, heq⟩ := List.mem_map.mp hx
        cases heq
        obtain ⟨⟨_, b'⟩, hb', heq⟩ := List.mem_map.mp hy
        cases heq
        exact ih _ b b' hb hb'

theorem alike_ofJson {j j' : Json} (h : j.Alike R j') : (ofJson j).Alike R (ofJson j') := by
  induction h with
  | null => exact .null
  | bool b => exact .boolean b
  | number related => exact .number related
  | string s => exact .string s
  | array length_eq each ih =>
      rw [ofJson, ofJson, ofItems_eq_map, ofItems_eq_map]
      refine .list (by simpa using length_eq) fun i hx hy => ?_
      rw [List.length_map] at hx hy
      rw [List.getElem_map, List.getElem_map]
      exact ih i hx hy
  | object names each ih =>
      rw [ofJson, ofJson, ofMembers_eq_map, ofMembers_eq_map]
      refine .mapping (fun k => ?_) fun k x y hx hy => ?_
      · rw [List.map_map, List.map_map]
        exact names k
      · obtain ⟨⟨k, j⟩, hj, heq⟩ := List.mem_map.mp hx
        cases heq
        obtain ⟨⟨_, j'⟩, hj', heq⟩ := List.mem_map.mp hy
        cases heq
        exact ih _ j j' hj hj'

/-- A binding is equal to the one that a value stands for if it is written as an equal value. -/
theorem alike_ofJson_iff {j : Json} {b : Binding} :
    (ofJson j).Alike R b ↔ j.Alike R b.toJson := by
  constructor
  · intro h
    have hj := h.toJson
    rwa [toJson_ofJson] at hj
  · intro h
    have hb := alike_ofJson h
    rwa [ofJson_toJson] at hb

/-! ## The equality of bindings -/

theorem sameItems_iff {as bs : List Binding} : sameItems as bs = true ↔
    as.length = bs.length ∧ ∀ i (ha : i < as.length) (hb : i < bs.length),
      as[i].same bs[i] = true := by
  induction as generalizing bs with
  | nil => cases bs <;> simp [sameItems]
  | cons a as ih =>
      cases bs with
      | nil => simp [sameItems]
      | cons b bs =>
          rw [sameItems, Bool.and_eq_true, ih]
          constructor
          · rintro ⟨hfirst, hlength, hrest⟩
            refine ⟨by simp [hlength], fun i ha hb => ?_⟩
            cases i with
            | zero => exact hfirst
            | succ i => exact hrest i (Nat.lt_of_succ_lt_succ ha) (Nat.lt_of_succ_lt_succ hb)
          · rintro ⟨hlength, hall⟩
            refine ⟨hall 0 (by simp) (by simp), by simpa using hlength, fun i ha hb => ?_⟩
            exact hall (i + 1) (Nat.succ_lt_succ ha) (Nat.succ_lt_succ hb)

theorem sameEntries_iff {as bs : List (String × Binding)} (hbs : (bs.map Prod.fst).Nodup) :
    sameEntries as bs = true ↔ ∀ e ∈ as, ∃ b, (e.1, b) ∈ bs ∧ e.2.same b = true := by
  refine ⟨fun h => ?_, sameEntries_of_mem hbs⟩
  induction as with
  | nil => simp
  | cons e as ih =>
      rw [sameEntries, Bool.and_eq_true] at h
      obtain ⟨hfirst, hrest⟩ := h
      refine List.forall_mem_cons.mpr ⟨?_, ih hrest⟩
      split at hfirst
      · next b hlookup =>
          exact ⟨b, (Dict.get?_eq_some_iff ⟨bs, hbs⟩ e.1 b).mp hlookup, hfirst⟩
      · cases hfirst

/-- Mappings are equal if they have the same names and equal bindings under each. -/
theorem same_mapping_iff {as bs : List (String × Binding)} (has : (as.map Prod.fst).Nodup)
    (hbs : (bs.map Prod.fst).Nodup) : (mapping as).same (mapping bs) = true ↔
      (∀ k, k ∈ as.map Prod.fst ↔ k ∈ bs.map Prod.fst) ∧
        ∀ k x y, (k, x) ∈ as → (k, y) ∈ bs → x.same y = true := by
  rw [same, Bool.and_eq_true, sameEntries_iff hbs, beq_iff_eq]
  constructor
  · rintro ⟨hlength, hall⟩
    have hsubset : as.map Prod.fst ⊆ bs.map Prod.fst := by
      intro k hk
      obtain ⟨e, he, rfl⟩ := List.mem_map.mp hk
      obtain ⟨b, hb, -⟩ := hall e he
      exact List.mem_map.mpr ⟨_, hb, rfl⟩
    -- As many names that do not repeat are all names.
    have hperm : (as.map Prod.fst).Perm (bs.map Prod.fst) :=
      (has.subperm hsubset).perm_of_length_le (by simp [hlength])
    refine ⟨fun k => hperm.mem_iff, fun k x y hx hy => ?_⟩
    obtain ⟨b, hb, hsame⟩ := hall (k, x) hx
    have heq : (k, b) = (k, y) := List.inj_on_of_nodup_map hbs hb hy rfl
    cases heq
    exact hsame
  · rintro ⟨names, each⟩
    have hperm : (as.map Prod.fst).Perm (bs.map Prod.fst) :=
      (List.perm_ext_iff_of_nodup has hbs).mpr names
    refine ⟨by simpa using hperm.length_eq, fun e he => ?_⟩
    obtain ⟨⟨_, b⟩, hb, hk⟩ := List.mem_map.mp ((names e.1).mp (List.mem_map_of_mem he))
    cases hk
    exact ⟨b, hb, each _ _ _ he hb⟩

/-- Well-formed bindings are equal if they are alike, their numbers being compared as numbers. -/
theorem same_iff_alike {b b' : Binding} (h : b.WellFormed) (h' : b'.WellFormed) :
    b.same b' = true ↔ b.Alike (fun m n => m.same n = true) b' := by
  induction b using forall_of_parts generalizing b' with
  | scalar s =>
      cases b' with
      | scalar s' =>
          constructor
          · intro hsame
            cases s <;> cases s' <;> simp only [same, Scalar.same, beq_iff_eq, reduceCtorEq,
              Scalar.boolean.injEq, Scalar.string.injEq] at hsame
            · exact .null
            · exact hsame ▸ .boolean _
            · exact .number hsame
            · exact hsame ▸ .string _
          · intro halike
            cases halike with
            | number related => exact related
            | _ => simp [same, Scalar.same]
      | _ =>
          simp only [same, Bool.false_eq_true, false_iff]
          rintro ⟨⟩
  | list items ih =>
      cases b' with
      | list items' =>
          obtain - | hitems := h
          obtain - | hitems' := h'
          rw [same, sameItems_iff]
          constructor
          · rintro ⟨hlength, hall⟩
            refine .list hlength fun i hx hy => ?_
            exact (ih _ (List.getElem_mem hx) (hitems _ (List.getElem_mem hx))
              (hitems' _ (List.getElem_mem hy))).mp (hall i hx hy)
          · rintro ⟨⟩
            next hlength each =>
              refine ⟨hlength, fun i hx hy => ?_⟩
              exact (ih _ (List.getElem_mem hx) (hitems _ (List.getElem_mem hx))
                (hitems' _ (List.getElem_mem hy))).mpr (each i hx hy)
      | _ =>
          simp only [same, Bool.false_eq_true, false_iff]
          rintro ⟨⟩
  | mapping entries ih =>
      cases b' with
      | mapping entries' =>
          obtain - | - | ⟨hdistinct, hentries⟩ := h
          obtain - | - | ⟨hdistinct', hentries'⟩ := h'
          rw [same_mapping_iff hdistinct hdistinct']
          constructor
          · rintro ⟨names, each⟩
            refine .mapping names fun k x y hx hy => ?_
            exact (ih (k, x) hx (hentries _ hx) (hentries' _ hy)).mp (each k x y hx hy)
          · rintro ⟨⟩
            next names each =>
              refine ⟨names, fun k x y hx hy => ?_⟩
              exact (ih (k, x) hx (hentries _ hx) (hentries' _ hy)).mpr (each k x y hx hy)
      | _ =>
          simp only [same, Bool.false_eq_true, false_iff]
          rintro ⟨⟩

/-! ## Values without repeated names -/

/-- A well-formed binding is written as a value without repeated names. -/
theorem WellFormed.distinct_toJson {b : Binding} (h : b.WellFormed) : b.toJson.Distinct := by
  induction h with
  | scalar s => cases s <;> exact .scalar trivial
  | list _ ih =>
      rw [toJson, toItems_eq_map]
      exact .array (List.forall_mem_map.mpr ih)
  | mapping distinct _ ih =>
      rw [toJson, toMembers_eq_map]
      exact .object (by simpa [Function.comp_def] using distinct) (List.forall_mem_map.mpr ih)

/-- A value without repeated names stands for a well-formed binding. -/
theorem wellFormed_ofJson {j : Json} (h : j.Distinct) : (ofJson j).WellFormed := by
  induction h with
  | @scalar j is_scalar =>
      cases j with
      | array items => exact is_scalar.elim
      | object members => exact is_scalar.elim
      | _ => exact .scalar _
  | array _ ih =>
      rw [ofJson, ofItems_eq_map]
      exact .list (List.forall_mem_map.mpr ih)
  | object nodup _ ih =>
      rw [ofJson, ofMembers_eq_map]
      exact .mapping (by simpa [Function.comp_def] using nodup) (List.forall_mem_map.mpr ih)

/-- A well-formed binding is what its value stands for when that is sorted. -/
theorem WellFormed.alike_ofJson_canonical {b : Binding} (h : b.WellFormed) :
    (ofJson b.toJson.canonical).Alike Eq b := by
  rw [alike_ofJson_iff, Json.alike_iff_canonical_eq
    (Json.isCanonical_canonical _).distinct h.distinct_toJson]
  exact Json.canonical_canonical _

/-- Sorted values that stand for equal bindings are one value. -/
theorem eq_of_alike_ofJson {j j' : Json} (hj : j.IsCanonical) (hj' : j'.IsCanonical)
    (h : (ofJson j).Alike Eq (ofJson j')) : j = j' := by
  rw [alike_ofJson_iff, toJson_ofJson, Json.alike_iff_canonical_eq hj.distinct hj'.distinct,
    hj.canonical_eq, hj'.canonical_eq] at h
  exact h

end Binding

namespace Variables

/-- Variables bind the members of an object, each name to what its value stands for. -/
structure Binds (v : Variables) (members : List (String × Json)) : Prop where
  keys_eq : v.keys = members.map Prod.fst
  get?_eq_some_iff : ∀ k b, v.get? k = some b ↔ ∃ j, (k, j) ∈ members ∧ Binding.ofJson j = b
  toJson_eq : v.toJson = .object members

theorem binds_of_ofJson {members : List (String × Json)} (hnodup : (members.map Prod.fst).Nodup)
    {v : Variables} (h : ofJson (.object members) = .ok v) : v.Binds members := by
  obtain ⟨_, ⟨⟩, rfl⟩ := ofJson_eq_ok_iff.mp h
  have hentries : (Dict.ofList (members.map fun e => (e.1, Binding.ofJson e.2))).entries =
      members.map fun e => (e.1, Binding.ofJson e.2) :=
    Dict.entries_ofList (by simpa [Function.comp_def] using hnodup)
  constructor
  · simp [Dict.keys, hentries, Function.comp_def]
  · intro k b
    rw [Dict.get?_eq_some_iff, hentries]
    simp
  · have hmembers := Binding.toJson_ofJson (.object members)
    rwa [Binding.ofJson, Binding.toJson, Binding.ofMembers_eq_map, ← hentries] at hmembers

end Variables

/-- Bindings and values correspond. Each conversion undoes the other, in whatever order mappings and
objects are listed and also when the members are sorted; and equal bindings come from equal values
only. Variables come from objects and from nothing else, bind their members and are written as them
again. -/
theorem bindings_correspond :
    (∀ j : Json, (Binding.ofJson j).toJson = j) ∧
    (∀ b : Binding, Binding.ofJson b.toJson = b) ∧
    (∀ (j : Json) (b : Binding), (Binding.ofJson j).Alike Eq b ↔ j.Alike Eq b.toJson) ∧
    (∀ b : Binding, b.WellFormed → (Binding.ofJson b.toJson.canonical).Alike Eq b) ∧
    (∀ j j' : Json, j.IsCanonical → j'.IsCanonical →
      (Binding.ofJson j).Alike Eq (Binding.ofJson j') → j = j') ∧
    (∀ j j' : Json, j.Distinct → j'.Distinct →
      ((Binding.ofJson j).same (Binding.ofJson j') = true ↔
        j.Alike (fun m n => m.same n = true) j')) ∧
    (∀ j : Json, (∃ v, Variables.ofJson j = .ok v) ↔ ∃ members, j = .object members) ∧
    ∀ (members : List (String × Json)) (v : Variables), (members.map Prod.fst).Nodup →
      Variables.ofJson (.object members) = .ok v → v.Binds members := by
  refine ⟨Binding.toJson_ofJson, Binding.ofJson_toJson, fun _ _ => Binding.alike_ofJson_iff,
    fun _ h => h.alike_ofJson_canonical, fun _ _ hj hj' => Binding.eq_of_alike_ofJson hj hj', ?_,
    ?_, fun _ _ hnodup => Variables.binds_of_ofJson hnodup⟩
  · intro j j' hj hj'
    rw [Binding.same_iff_alike (Binding.wellFormed_ofJson hj) (Binding.wellFormed_ofJson hj'),
      Binding.alike_ofJson_iff, Binding.toJson_ofJson]
  · intro j
    constructor
    · rintro ⟨v, hv⟩
      obtain ⟨members, hmembers, -⟩ := Variables.ofJson_eq_ok_iff.mp hv
      exact ⟨members, hmembers⟩
    · rintro ⟨members, rfl⟩
      exact ⟨_, Variables.ofJson_eq_ok_iff.mpr ⟨members, rfl, rfl⟩⟩

end MutationInput
