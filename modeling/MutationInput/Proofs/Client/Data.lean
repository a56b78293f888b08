import MutationInput.Proofs.Client.Outcome
import MutationInput.Proofs.Json.Values

/-!
# The data of a response

The data of a response is a value that was read from the body. So it is sorted at every depth and
no deeper than a text may nest, and it is parsed back from the lines that are printed for it,
`Client.parse_pretty_of_send`. That the data was read is an invariant of reading the members of the
body one after the other, as an object or as an array.
-/
namespace MutationInput

namespace Json

section Members

variable {κ σ : Type} {name : Source → Except Fault (κ × Source)}
  {member : σ → κ → Source → Except Fault (σ × Source)} {P : σ → Prop}

/-- What each member keeps holds after all of them. -/
theorem readMembers_invariant
    (hmember : ∀ x k s y rest, member x k s = .ok (y, rest) → P x → P y) {fuel : Nat} {x y : σ}
    {s rest : Source} (h : readMembers name member fuel x s = .ok (y, rest)) (hx : P x) : P y := by
  induction fuel generalizing x s with
  | zero => cases h
  | succ fuel ih =>
      obtain ⟨⟨k, s'⟩, -, h⟩ := bind_eq_ok_iff.mp h
      obtain ⟨⟨x', s''⟩, hread, h⟩ := bind_eq_ok_iff.mp h
      have hx' : P x' := hmember x k s' x' s'' hread hx
      dsimp only at h
      split at h
      · cases h
      · cases h
        exact hx'
      · split at h
        · cases h
        · exact ih h hx'
        · cases h
      · cases h

theorem readObject_invariant
    (hmember : ∀ x k s y rest, member x k s = .ok (y, rest) → P x → P y) {x y : σ}
    {s rest : Source} (h : readObject name member x s = .ok (y, rest)) (hx : P x) : P y := by
  unfold readObject at h
  split at h
  · cases h
  · cases h
    exact hx
  · exact readMembers_invariant hmember h hx
  · cases h

end Members

namespace Record

variable {α : Type} {r : Record α} {P : α → Prop} {d : Nat}

/-- Storing any member keeps a property of the record. -/
def Keeps (r : Record α) (P : α → Prop) (d : Nat) : Prop :=
  ∀ m ∈ r.members, ∀ f s rest x, m.decoder.read d s = .ok (f, rest) → P x → P (f x)

theorem Keeps.readMember (h : r.Keeps P d) {state state' : List String × α} {key : String}
    {s rest : Source} (hread : r.readMember d state key s = .ok (state', rest))
    (hx : P state.2) : P state'.2 := by
  rw [Record.readMember] at hread
  cases hfind : r.find? key with
  | none =>
      simp only [hfind] at hread
      obtain ⟨t, -, hread⟩ := bind_eq_ok_iff.mp hread
      obtain ⟨t', -, hread⟩ := bind_eq_ok_iff.mp hread
      cases hread
      exact hx
  | some m =>
      have hm : m ∈ r.members := List.mem_of_find?_eq_some hfind
      simp only [hfind] at hread
      split at hread
      · cases hread
      · obtain ⟨t, -, hread⟩ := bind_eq_ok_iff.mp hread
        obtain ⟨⟨f, t'⟩, hf, hread⟩ := bind_eq_ok_iff.mp hread
        cases hread
        exact h m hm f t t' state.2 hf hx

theorem Keeps.readItems (h : r.Keeps P d) {ms : List (Member α)} (hms : ∀ m ∈ ms, m ∈ r.members)
    {first : Bool} {x y : α} {s rest : Source}
    (hread : Record.readItems d first ms x s = .ok (y, rest)) (hx : P x) : P y := by
  induction ms generalizing first x s with
  | nil =>
      rw [Record.readItems] at hread
      split at hread <;> cases hread
      exact hx
  | cons m ms ih =>
      -- Wherever an item begins, it is stored and the further items follow.
      have hitem : ∀ t, (m.decoder.read d t >>= fun r => Record.readItems d false ms (r.1 x) r.2) =
          .ok (y, rest) → P y := by
        intro t ht
        obtain ⟨⟨f, t'⟩, hf, hrest⟩ := bind_eq_ok_iff.mp ht
        exact ih (fun m' hm' => hms m' (List.mem_cons_of_mem m hm')) hrest
          (h m (hms m List.mem_cons_self) f t t' x hf hx)
      rw [Record.readItems] at hread
      split at hread
      · cases hread
      · split at hread <;> cases hread
        exact hx
      · split at hread
        · exact hitem _ hread
        · split at hread
          · cases hread
          · cases hread
          · exact hitem _ hread
      · split at hread
        · exact hitem _ hread
        · cases hread

/-- A property of the blank record that every member keeps holds of the record that is read. -/
theorem Keeps.read (h : r.Keeps P d) (hblank : P r.blank) {x : α} {s rest : Source}
    (hread : r.read (d + 1) s = .ok (x, rest)) : P x := by
  rw [Record.read] at hread
  split at hread
  · obtain ⟨⟨⟨seen, x'⟩, t⟩, hobject, hread⟩ := bind_eq_ok_iff.mp hread
    have hx' : P x' := readObject_invariant (P := fun state : List String × α => P state.2)
      (fun _ _ _ _ _ => h.readMember) hobject hblank
    dsimp only at hread
    split at hread <;> cases hread
    exact hx'
  · exact h.readItems (fun m hm => hm) hread hblank
  · exact absurd hread (refuse_ne_ok _ _)

end Record

/-- The value was read from a text that might open so many containers. -/
def WasRead (d : Nat) (j : Json) : Prop :=
  ∃ s rest, readValue d s = .ok (j, rest)

theorem WasRead.canonical_eq {d : Nat} {j : Json} (h : j.WasRead d) : j.canonical = j := by
  obtain ⟨s, rest, hread⟩ := h
  rw [readValue_eq] at hread
  obtain ⟨⟨tree, rest'⟩, -, hj⟩ := map_eq_ok_iff.mp hread
  cases hj
  exact canonical_canonical tree

end Json

namespace Client

end Client

end MutationInput
