import MutationInput.Proofs.Json.Faithful
import MutationInput.Proofs.Json.Values
import Mathlib.Data.List.Nodup

/-!
# Values that are equal but for the order of members

Objects have no order of their own, so two values are the same if they are equal but for the order
in which members are listed, at every depth: `Alike`. Numbers are compared as the caller wishes.
For values in which no name is repeated this is having the same sorted form,
`alike_iff_canonical_eq`, and a value that is sorted already is its own, `IsCanonical.canonical_eq`.
-/
namespace MutationInput.Json

/-! ## Sorted values -/

theorem allCanonical_iff {items : List Json} :
    AllCanonical items ↔ ∀ j ∈ items, j.IsCanonical := by
  induction items with
  | nil => simp [AllCanonical]
  | cons j items ih => simp [AllCanonical, ih]

theorem membersCanonical_iff {members : List (String × Json)} :
    MembersCanonical members ↔ ∀ e ∈ members, e.2.IsCanonical := by
  induction members with
  | nil => simp [MembersCanonical]
  | cons e members ih => simp [MembersCanonical, ih]

/-- Sorting changes nothing in a value that is sorted. -/
theorem IsCanonical.canonical_eq {j : Json} (h : j.IsCanonical) : j.canonical = j := by
  induction j using forall_of_parts with
  | scalar j is_scalar => exact canonical_of_isScalar is_scalar
  | array items ih =>
      rw [IsCanonical, allCanonical_iff] at h
      rw [canonical, canonicalItems_eq_map]
      have hitems : items.map canonical = items.map id :=
        List.map_congr_left fun j hj => ih j hj (h j hj)
      rw [hitems, List.map_id]
  | object members ih =>
      rw [IsCanonical, membersCanonical_iff] at h
      obtain ⟨hascending, hvalues⟩ := h
      have hmembers : members.map (fun e => (e.1, e.2.canonical)) = members.map id :=
        List.map_congr_left fun e he => congrArg (Prod.mk e.1) (ih e he (hvalues e he))
      rw [canonical, canonicalMembers_eq_map, hmembers, List.map_id, ofMembers,
        sortMembers_of_ascending hascending]

/-- No name is repeated in a value that is sorted. -/
theorem IsCanonical.distinct {j : Json} (h : j.IsCanonical) : j.Distinct := by
  induction j using forall_of_parts with
  | scalar j is_scalar => exact .scalar is_scalar
  | array items ih =>
      rw [IsCanonical, allCanonical_iff] at h
      exact .array fun j hj => ih j hj (h j hj)
  | object members ih =>
      rw [IsCanonical, membersCanonical_iff] at h
      exact .object h.1.nodup fun e he => ih e he (h.2 e he)

/-- What sorting leads to is sorted. -/
theorem isCanonical_canonical (j : Json) : j.canonical.IsCanonical := by
  induction j using forall_of_parts with
  | scalar j is_scalar =>
      rw [canonical_of_isScalar is_scalar]
      cases j <;> trivial
  | array items ih =>
      rw [canonical, IsCanonical, allCanonical_iff, canonicalItems_eq_map]
      simpa using ih
  | object members ih =>
      rw [canonical, ofMembers, IsCanonical, membersCanonical_iff]
      refine ⟨ascending_sortMembers _, fun e he => ?_⟩
      have hmem := mem_of_mem_sortMembers he
      rw [canonicalMembers_eq_map] at hmem
      obtain ⟨e', he', rfl⟩ := List.mem_map.mp hmem
      exact ih e' he'

/-- Lists of ascending members that have the same members are equal. -/
theorem Ascending.eq_of_mem_iff {as bs : List (String × Json)} (ha : Ascending as)
    (hb : Ascending bs) (h : ∀ e, e ∈ as ↔ e ∈ bs) : as = bs := by
  have hperm : as.Perm bs :=
    (List.perm_ext_iff_of_nodup (ha.nodup.of_map _) (hb.nodup.of_map _)).mpr h
  refine hperm.eq_of_pairwise (fun a b _ _ hab hba => ?_) ha hb
  exact absurd hba (lt_asymm hab)

/-! ## Equality up to order -/

/-- Two values are equal but for the order of members, with numbers that are related by `R`. -/
inductive Alike (R : Number → Number → Prop) : Json → Json → Prop where
  | null : Alike R .null .null
  | bool (b : Bool) : Alike R (.bool b) (.bool b)
  | number {m n : Number} (related : R m n) : Alike R (.number m) (.number n)
  | string (s : String) : Alike R (.string s) (.string s)
  | array {xs ys : List Json} (length_eq : xs.length = ys.length)
      (each : ∀ i (hx : i < xs.length) (hy : i < ys.length), Alike R xs[i] ys[i]) :
      Alike R (.array xs) (.array ys)
  | object {xs ys : List (String × Json)}
      (names : ∀ k, k ∈ xs.map Prod.fst ↔ k ∈ ys.map Prod.fst)
      (each : ∀ k x y, (k, x) ∈ xs → (k, y) ∈ ys → Alike R x y) :
      Alike R (.object xs) (.object ys)

/-- Values of one sorted form have members of one sorted form under each name. -/
theorem canonical_eq_of_mem {xs ys : List (String × Json)} (hxs : (xs.map Prod.fst).Nodup)
    (hys : (ys.map Prod.fst).Nodup)
    (h : (Json.object xs).canonical = (Json.object ys).canonical) {k : String} {x y : Json}
    (hx : (k, x) ∈ xs) (hy : (k, y) ∈ ys) : x.canonical = y.canonical := by
  simp only [canonical, ofMembers, Json.object.injEq, canonicalMembers_eq_map] at h
  have hsorted : ∀ {zs : List (String × Json)} {z : Json}, (zs.map Prod.fst).Nodup →
      (k, z) ∈ zs → (k, z.canonical) ∈ sortMembers (zs.map fun e => (e.1, e.2.canonical)) := by
    intro zs z hzs hz
    rw [(perm_sortMembers (by simpa [Function.comp_def] using hzs)).mem_iff]
    exact List.mem_map_of_mem hz
  have hx' := hsorted hxs hx
  rw [h] at hx'
  have hnodup := (ascending_sortMembers (ys.map fun e => (e.1, e.2.canonical))).nodup
  exact congrArg Prod.snd (List.inj_on_of_nodup_map hnodup hx' (hsorted hys hy) rfl)

/-- Objects of one sorted form have the same names. -/
theorem mem_keys_iff_of_canonical_eq {xs ys : List (String × Json)}
    (hxs : (xs.map Prod.fst).Nodup) (hys : (ys.map Prod.fst).Nodup)
    (h : (Json.object xs).canonical = (Json.object ys).canonical) (k : String) :
    k ∈ xs.map Prod.fst ↔ k ∈ ys.map Prod.fst := by
  simp only [canonical, ofMembers, Json.object.injEq, canonicalMembers_eq_map] at h
  have hkeys : ∀ {zs : List (String × Json)}, (zs.map Prod.fst).Nodup →
      (k ∈ (sortMembers (zs.map fun e => (e.1, e.2.canonical))).map Prod.fst ↔
        k ∈ zs.map Prod.fst) := by
    intro zs hzs
    rw [((perm_sortMembers (by simpa [Function.comp_def] using hzs)).map Prod.fst).mem_iff]
    simp [Function.comp_def]
  rw [← hkeys hxs, h, hkeys hys]

/-- Objects are alike in their sorted forms if they have the same names and values that are. -/
theorem canonical_object_eq {xs ys : List (String × Json)} (hxs : (xs.map Prod.fst).Nodup)
    (hys : (ys.map Prod.fst).Nodup) (names : ∀ k, k ∈ xs.map Prod.fst ↔ k ∈ ys.map Prod.fst)
    (each : ∀ k x y, (k, x) ∈ xs → (k, y) ∈ ys → x.canonical = y.canonical) :
    (Json.object xs).canonical = (Json.object ys).canonical := by
  simp only [canonical, ofMembers, Json.object.injEq, canonicalMembers_eq_map]
  refine (ascending_sortMembers _).eq_of_mem_iff (ascending_sortMembers _) fun e => ?_
  rw [(perm_sortMembers (by simpa [Function.comp_def] using hxs)).mem_iff,
    (perm_sortMembers (by simpa [Function.comp_def] using hys)).mem_iff]
  constructor
  · intro he
    obtain ⟨⟨k, x⟩, hx, rfl⟩ := List.mem_map.mp he
    obtain ⟨⟨_, y⟩, hy, rfl⟩ := List.mem_map.mp ((names k).mp (List.mem_map_of_mem hx))
    exact List.mem_map.mpr ⟨_, hy, by rw [each _ x y hx hy]⟩
  · intro he
    obtain ⟨⟨k, y⟩, hy, rfl⟩ := List.mem_map.mp he
    obtain ⟨⟨_, x⟩, hx, rfl⟩ := List.mem_map.mp ((names k).mpr (List.mem_map_of_mem hy))
    exact List.mem_map.mpr ⟨_, hx, by rw [each _ x y hx hy]⟩

theorem Alike.canonical_eq {j j' : Json} (h : j.Alike Eq j') (hj : j.Distinct)
    (hj' : j'.Distinct) : j.canonical = j'.canonical := by
  induction h with
  | null | bool _ | string _ => rfl
  | number related => rw [related]
  | @array xs ys length_eq each ih =>
      obtain hs | hxs := hj
      · exact hs.elim
      obtain hs | hys := hj'
      · exact hs.elim
      rw [canonical, canonical, canonicalItems_eq_map, canonicalItems_eq_map]
      refine congrArg Json.array (List.ext_getElem (by simpa using length_eq) fun i hx hy => ?_)
      rw [List.getElem_map, List.getElem_map]
      rw [List.length_map] at hx hy
      exact ih i hx hy (hxs _ (List.getElem_mem hx)) (hys _ (List.getElem_mem hy))
  | object names each ih =>
      obtain hs | - | ⟨hxs, hx⟩ := hj
      · exact hs.elim
      obtain hs | - | ⟨hys, hy⟩ := hj'
      · exact hs.elim
      exact canonical_object_eq hxs hys names fun k x y hkx hky =>
        ih k x y hkx hky (hx _ hkx) (hy _ hky)

theorem alike_of_canonical_eq {j j' : Json} (h : j.canonical = j'.canonical) (hj : j.Distinct)
    (hj' : j'.Distinct) : j.Alike Eq j' := by
  induction j using forall_of_parts generalizing j' with
  | scalar j is_scalar =>
      rw [canonical_of_isScalar is_scalar] at h
      cases j' with
      | array items =>
          rw [h, canonical] at is_scalar
          exact is_scalar.elim
      | object members =>
          rw [h, canonical] at is_scalar
          exact is_scalar.elim
      | null => exact h ▸ .null
      | bool b => exact h ▸ .bool b
      | number n => exact h ▸ .number rfl
      | string s => exact h ▸ .string s
  | array items ih =>
      cases j' with
      | array items' =>
          obtain hs | hxs := hj
          · exact hs.elim
          obtain hs | hys := hj'
          · exact hs.elim
          simp only [canonical, canonicalItems_eq_map, Json.array.injEq] at h
          refine .array (by simpa using congrArg List.length h) fun i hx hy => ?_
          refine ih _ (List.getElem_mem hx) ?_ (hxs _ (List.getElem_mem hx))
            (hys _ (List.getElem_mem hy))
          have hi : (items.map canonical)[i]? = (items'.map canonical)[i]? := by rw [h]
          simpa [hx, hy] using hi
      | _ => cases h
  | object members ih =>
      cases j' with
      | object members' =>
          obtain hs | - | ⟨hxs, hx⟩ := hj
          · exact hs.elim
          obtain hs | - | ⟨hys, hy⟩ := hj'
          · exact hs.elim
          refine .object (mem_keys_iff_of_canonical_eq hxs hys h) fun k x y hkx hky => ?_
          exact ih (k, x) hkx (canonical_eq_of_mem hxs hys h hkx hky) (hx _ hkx) (hy _ hky)
      | _ => cases h

/-- Values without repeated names are equal up to order if they have one sorted form. -/
theorem alike_iff_canonical_eq {j j' : Json} (hj : j.Distinct) (hj' : j'.Distinct) :
    j.Alike Eq j' ↔ j.canonical = j'.canonical :=
  ⟨fun h => h.canonical_eq hj hj', fun h => alike_of_canonical_eq h hj hj'⟩

end MutationInput.Json
