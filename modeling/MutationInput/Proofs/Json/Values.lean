import MutationInput.Proofs.Json.Printed
import MutationInput.Proofs.Json.Trees

/-!
# What holds of every value, and of every value that is read

`forall_of_parts` is induction on a value, and `forall_of_readTree` the same for a value as it is
read, in which each part was read from some text with one container less to open. From the first,
sorting the objects in a value is done once and for all (`canonical_canonical`) and does not make
it deeper; from the second, a value is never deeper than it was allowed to be.
-/
namespace MutationInput.Json

/-- What holds of scalars and, with all parts, of an array or an object, holds of every value. -/
theorem forall_of_parts {P : Json → Prop} (scalar : ∀ j, j.IsScalar → P j)
    (array : ∀ items, (∀ j ∈ items, P j) → P (.array items))
    (object : ∀ members : List (String × Json), (∀ e ∈ members, P e.2) → P (.object members)) :
    ∀ j, P j
  | .null | .bool _ | .number _ | .string _ => scalar _ trivial
  | .array items => array items fun j hj =>
      have := List.sizeOf_lt_of_mem hj
      forall_of_parts scalar array object j
  | .object members => object members fun e he =>
      have := List.sizeOf_lt_of_mem he
      forall_of_parts scalar array object e.2
termination_by j => sizeOf j
decreasing_by
  · simp only [Json.array.sizeOf_spec]
    omega
  · have hvalue : sizeOf e.2 < sizeOf e := by
      cases e
      simp
    simp only [Json.object.sizeOf_spec]
    omega

/-- Sorting an object that is sorted at every depth changes nothing. -/
theorem canonical_canonical (j : Json) : j.canonical.canonical = j.canonical := by
  induction j using forall_of_parts with
  | scalar j is_scalar => simp only [canonical_of_isScalar is_scalar]
  | array items ih =>
      simp only [canonical, canonicalItems_eq_map, List.map_map]
      exact congrArg Json.array (List.map_congr_left ih)
  | object members ih =>
      simp only [canonical, ofMembers, canonicalMembers_eq_map]
      generalize hms : (members.map fun e => (e.1, e.2.canonical)) = ms
      have hvalue : ∀ e ∈ sortMembers ms, (e.1, e.2.canonical) = e := by
        intro e he
        have hmem := mem_of_mem_sortMembers he
        rw [← hms] at hmem
        obtain ⟨e', he', rfl⟩ := List.mem_map.mp hmem
        exact congrArg (Prod.mk e'.1) (ih e' he')
      have hmap : (sortMembers ms).map (fun e => (e.1, e.2.canonical)) = sortMembers ms := by
        rw [List.map_congr_left hvalue, List.map_id']
      rw [hmap, sortMembers_sortMembers]

/-! ## Depth -/

section Loops

variable {α : Type} {read : Source → Except Fault (α × Source)} {s rest : Source}

/-- Each item of an array was read from some text. -/
theorem Items.exists_read {xs : List α} (h : Items read s xs rest) {x : α} (hx : x ∈ xs) :
    ∃ t r, read t = .ok (x, r) := by
  induction h with
  | last first close =>
      obtain rfl := List.mem_singleton.mp hx
      exact ⟨_, _, first⟩
  | comma first comma more another tail ih =>
      rcases List.mem_cons.mp hx with rfl | hx
      · exact ⟨_, _, first⟩
      · exact ih hx

theorem exists_read_of_readArray {xs : List α} (h : readArray read s = .ok (xs, rest)) {x : α}
    (hx : x ∈ xs) : ∃ t r, read t = .ok (x, r) := by
  unfold readArray at h
  split at h
  · cases h
  · cases h
    cases hx
  · exact (items_of_readItems h).1.exists_read hx

/-- The value of each member of an object was read from some text. -/
theorem Entries.exists_read {es : List (String × α)} (h : Entries read s es rest)
    {e : String × α} (he : e ∈ es) : ∃ t r, read t = .ok (e.2, r) := by
  induction h with
  | last name value close =>
      obtain ⟨t, -, hread⟩ := bind_eq_ok_iff.mp value
      obtain rfl := List.mem_singleton.mp he
      exact ⟨t, _, hread⟩
  | comma name value comma quote tail ih =>
      obtain ⟨t, -, hread⟩ := bind_eq_ok_iff.mp value
      rcases List.mem_cons.mp he with rfl | he
      · exact ⟨t, _, hread⟩
      · exact ih he

theorem exists_read_of_readEntries {es : List (String × α)}
    (h : readEntries read s = .ok (es, rest)) {e : String × α} (he : e ∈ es) :
    ∃ t r, read t = .ok (e.2, r) := by
  obtain ⟨⟨acc, rest'⟩, hobject, hes⟩ := bind_eq_ok_iff.mp h
  cases hes
  unfold readObject at hobject
  split at hobject
  · cases hobject
  · cases hobject
    cases he
  · obtain ⟨es, hentries, rfl, -⟩ := entries_of_readMembers hobject
    exact hentries.exists_read (by simpa using he)
  · cases hobject

end Loops

/-- What holds of every scalar that is read and, with all parts read with one container less to
open, of an array or an object, holds of every value that is read. -/
theorem forall_of_readTree {P : Nat → Json → Prop}
    (scalar : ∀ d s j rest, readValueWith none s = .ok (j, rest) → P d j)
    (array : ∀ d items, (∀ j ∈ items, P d j) → P (d + 1) (.array items))
    (object : ∀ d (members : List (String × Json)), (∀ e ∈ members, P d e.2) →
      P (d + 1) (.object members))
    {d : Nat} {s rest : Source} {j : Json} (h : readTree d s = .ok (j, rest)) : P d j := by
  induction d generalizing s j rest with
  | zero =>
      cases treeAt_of_readTree h with
      | scalar no_array no_object is_scalar read => exact scalar 0 _ j rest read
  | succ d ih =>
      cases treeAt_of_readTree h with
      | scalar no_array no_object is_scalar read => exact scalar (d + 1) _ j rest read
      | array bracket read =>
          refine array d _ fun j hj => ?_
          obtain ⟨t, r, hread⟩ := exists_read_of_readArray read hj
          exact ih hread
      | object brace read =>
          refine object d _ fun e he => ?_
          obtain ⟨t, r, hread⟩ := exists_read_of_readEntries read he
          exact ih hread

/-- A number that is read is not too large for its kind. -/
theorem overflows_of_readValueWith {s rest : Source} {n : Number}
    (h : readValueWith none s = .ok (.number n, rest)) : n.overflows = false := by
  have hnumber : ∀ {negative t r}, readNumber negative t = .ok (n, r) → n.overflows = false := by
    intro negative t r hread
    obtain ⟨⟨numeral, t'⟩, -, hcheck⟩ := bind_eq_ok_iff.mp hread
    dsimp only at hcheck
    split at hcheck
    · cases hcheck
    · next hfits =>
        cases hcheck
        simpa using hfits
  unfold readValueWith at h
  split at h <;> (try split at h) <;> first
    | cases h
    | obtain ⟨_, hread, h⟩ := map_eq_ok_iff.mp h
      cases h
      try exact hnumber hread

end MutationInput.Json
