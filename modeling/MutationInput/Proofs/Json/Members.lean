import MutationInput.Json.Basic
import MutationInput.Proofs.Dict
import Mathlib.Data.List.Induction
import Mathlib.Data.List.Perm.Basic
import Mathlib.Data.String.Basic

/-!
# Sorted members

Sorting the members of an object moves them and changes nothing else, if no name is repeated:
`perm_sortMembers`. Sorted members stay as they are, `sortMembers_sortMembers`. Of a name that is
repeated the last member stays, `lookup_sortMembers`.
-/
namespace MutationInput.Json

theorem canonicalItems_eq_map (items : List Json) : canonicalItems items = items.map canonical := by
  induction items with
  | nil => rfl
  | cons j items ih => rw [canonicalItems, ih, List.map_cons]

theorem canonicalMembers_eq_map (members : List (String × Json)) :
    canonicalMembers members = members.map fun e => (e.1, e.2.canonical) := by
  induction members with
  | nil => rfl
  | cons e members ih => rw [canonicalMembers, ih, List.map_cons]

/-- A new name is added. -/
theorem perm_setMember {k : String} {members : List (String × Json)}
    (h : k ∉ members.map Prod.fst) (v : Json) :
    (setMember k v members).Perm ((k, v) :: members) := by
  induction members with
  | nil => exact .refl _
  | cons e rest ih =>
      have hne : e.1 ≠ k := fun he => h (by simp [he])
      have hrest : k ∉ rest.map Prod.fst := fun hm => h (List.mem_cons_of_mem _ hm)
      rw [setMember, if_neg hne]
      split
      · exact .refl _
      · exact ((ih hrest).cons e).trans (.swap _ _ _)

/-- The last of the members is set last. -/
theorem sortMembers_concat (members : List (String × Json)) (e : String × Json) :
    sortMembers (members ++ [e]) = setMember e.1 e.2 (sortMembers members) := by
  simp [sortMembers, List.foldl_append]

/-- Members whose names do not repeat are all there, each once. -/
theorem perm_sortMembers {members : List (String × Json)} (h : (members.map Prod.fst).Nodup) :
    (sortMembers members).Perm members := by
  induction members using List.reverseRecOn with
  | nil => exact .refl _
  | append_singleton members e ih =>
      rw [List.map_append, List.map_singleton] at h
      obtain ⟨hmembers, -, hnew⟩ := List.nodup_append.mp h
      have hperm := ih hmembers
      have he : e.1 ∉ (sortMembers members).map Prod.fst := fun hm =>
        hnew e.1 ((hperm.map Prod.fst).mem_iff.mp hm) e.1 (by simp) rfl
      rw [sortMembers_concat]
      exact (perm_setMember he e.2).trans
        ((hperm.cons e).trans (List.perm_append_singleton e members).symm)

/-! ## Look-ups -/

/-- Setting changes the value under its own name and under no other. -/
theorem lookup_setMember (k k' : String) (v : Json) (members : List (String × Json)) :
    (setMember k v members).lookup k' = if k' = k then some v else members.lookup k' := by
  induction members with
  | nil => simp [setMember, Dict.lookup_entry]
  | cons e rest ih =>
      rw [setMember]
      split
      · exact Dict.lookup_entry k' (k, v) (e :: rest)
      · split
        · next heq => by_cases hk : k' = k <;> simp [Dict.lookup_entry, hk, heq]
        · next hne =>
            have hne' : ¬e.1 = k := hne
            by_cases hk : k' = e.1 <;> simp [Dict.lookup_entry, hk, hne', ih]

/-- The last member of a name is found. -/
theorem lookup_sortMembers (members : List (String × Json)) (k : String) :
    (sortMembers members).lookup k = members.reverse.lookup k := by
  induction members using List.reverseRecOn with
  | nil => rfl
  | append_singleton members e ih =>
      rw [sortMembers_concat, lookup_setMember, ih, List.reverse_concat, Dict.lookup_entry]

/-! ## Members that are sorted already -/

theorem eq_or_mem_of_mem_setMember {k : String} {v : Json} {members : List (String × Json)}
    {e : String × Json} (h : e ∈ setMember k v members) : e = (k, v) ∨ e ∈ members := by
  induction members with
  | nil => exact .inl (List.mem_singleton.mp h)
  | cons e' rest ih =>
      rw [setMember] at h
      split at h
      · exact List.mem_cons.mp h
      · split at h
        · exact (List.mem_cons.mp h).imp_right (List.mem_cons_of_mem e')
        · rcases List.mem_cons.mp h with rfl | h
          · exact .inr List.mem_cons_self
          · exact (ih h).imp_right (List.mem_cons_of_mem e')

theorem mem_of_mem_sortMembers {members : List (String × Json)} {e : String × Json}
    (h : e ∈ sortMembers members) : e ∈ members := by
  induction members using List.reverseRecOn with
  | nil => cases h
  | append_singleton members e' ih =>
      rw [sortMembers_concat] at h
      rcases eq_or_mem_of_mem_setMember h with rfl | h
      · simp
      · exact List.mem_append_left _ (ih h)

theorem ascending_setMember {members : List (String × Json)} (h : Ascending members) (k : String)
    (v : Json) : Ascending (setMember k v members) := by
  induction members with
  | nil => exact List.pairwise_singleton _ _
  | cons e rest ih =>
      obtain ⟨hlt, hrest⟩ := List.pairwise_cons.mp h
      rw [setMember]
      split
      · next hk =>
          refine List.pairwise_cons.mpr ⟨fun e' he' => ?_, h⟩
          rcases List.mem_cons.mp he' with rfl | he'
          · exact hk
          · exact lt_trans hk (hlt e' he')
      · next hk =>
          split
          · next heq => exact List.pairwise_cons.mpr ⟨fun e' he' => heq ▸ hlt e' he', hrest⟩
          · next hne =>
              refine List.pairwise_cons.mpr ⟨fun e' he' => ?_, ih hrest⟩
              rcases eq_or_mem_of_mem_setMember he' with rfl | he'
              · exact lt_of_le_of_ne (not_lt.mp hk) hne
              · exact hlt e' he'

theorem ascending_sortMembers (members : List (String × Json)) :
    Ascending (sortMembers members) := by
  induction members using List.reverseRecOn with
  | nil => exact List.Pairwise.nil
  | append_singleton members e ih =>
      rw [sortMembers_concat]
      exact ascending_setMember ih e.1 e.2

/-- The greatest name goes to the end. -/
theorem setMember_of_lt {k : String} {members : List (String × Json)}
    (h : ∀ e ∈ members, e.1 < k) (v : Json) : setMember k v members = members ++ [(k, v)] := by
  induction members with
  | nil => rfl
  | cons e rest ih =>
      have he : e.1 < k := h e List.mem_cons_self
      rw [setMember, if_neg (lt_asymm he), if_neg (ne_of_lt he),
        ih fun e' he' => h e' (List.mem_cons_of_mem e he')]
      rfl

theorem sortMembers_of_ascending {members : List (String × Json)} (h : Ascending members) :
    sortMembers members = members := by
  induction members using List.reverseRecOn with
  | nil => rfl
  | append_singleton members e ih =>
      obtain ⟨hmembers, -, hlt⟩ := List.pairwise_append.mp h
      rw [sortMembers_concat, ih hmembers, setMember_of_lt fun e' he' => hlt e' he' e (by simp)]

theorem sortMembers_sortMembers (members : List (String × Json)) :
    sortMembers (sortMembers members) = sortMembers members :=
  sortMembers_of_ascending (ascending_sortMembers members)

theorem Ascending.nodup {members : List (String × Json)} (h : Ascending members) :
    (members.map Prod.fst).Nodup :=
  List.pairwise_map.mpr (h.imp ne_of_lt)

/-- Sorted members have each name once, whatever becomes of the values. -/
theorem nodup_map_sortMembers {α : Type} (f : Json → α) (members : List (String × Json)) :
    (((sortMembers members).map fun e => (e.1, f e.2)).map Prod.fst).Nodup := by
  have hnodup := (ascending_sortMembers members).nodup
  simpa [Function.comp_def] using hnodup

/-! ## The last value under each name -/

/-- Sorted members are the entries that members make, listed in another order. -/
theorem perm_sortMembers_ofList (members : List (String × Json)) :
    (sortMembers members).Perm (Dict.ofList members).entries := by
  refine Dict.perm_of_get?_eq (d := ⟨sortMembers members, (ascending_sortMembers members).nodup⟩)
    fun k => ?_
  rw [Dict.get?_ofList, ← lookup_sortMembers, Dict.get?]

theorem mem_sortMembers_iff {members : List (String × Json)} {k : String} {j : Json} :
    (k, j) ∈ sortMembers members ↔ Dict.IsLast members k j := by
  rw [(perm_sortMembers_ofList members).mem_iff, Dict.mem_entries_ofList_iff]

/-- Sorting loses no name. -/
theorem mem_keys_sortMembers_iff {members : List (String × Json)} {k : String} :
    k ∈ (sortMembers members).map Prod.fst ↔ k ∈ members.map Prod.fst := by
  constructor
  · intro h
    obtain ⟨e, he, rfl⟩ := List.mem_map.mp h
    exact List.mem_map_of_mem (mem_of_mem_sortMembers he)
  · intro h
    obtain ⟨j, hlast⟩ := Dict.exists_isLast h
    exact List.mem_map.mpr ⟨(k, j), mem_sortMembers_iff.mpr hlast, rfl⟩

/-- Sorting the canonical forms of members leaves that of the last value under each name. -/
theorem mem_sortMembers_canonical_iff {members : List (String × Json)} {k : String} {j : Json} :
    (k, j) ∈ sortMembers (members.map fun e => (e.1, e.2.canonical)) ↔
      ∃ j', Dict.IsLast members k j' ∧ j'.canonical = j := by
  rw [mem_sortMembers_iff, Dict.isLast_map_iff]

end MutationInput.Json
