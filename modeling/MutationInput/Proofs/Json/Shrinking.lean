import MutationInput.Proofs.Json.Trees

/-!
# Readers shrink the text

No reader gives back more text than it was given, from the tokens up to a whole value,
`shrinks_readTree`. So the length of the text bounds how deep and how often anything in it is read.
-/
namespace MutationInput.Json

/-- A reader never gives back more than it was given. -/
def Shrinks {α : Type} (read : Source → Except Fault (α × Source)) : Prop :=
  ∀ ⦃s x rest⦄, read s = .ok (x, rest) → rest.length ≤ s.length

theorem Shrinks.map {α β : Type} {read : Source → Except Fault (α × Source)} (h : Shrinks read)
    (f : α → β) : Shrinks fun s => (read s).map fun r => (f r.1, r.2) := by
  intro s y rest hread
  obtain ⟨⟨x, rest'⟩, hx, hy⟩ := map_eq_ok_iff.mp hread
  cases hy
  exact h hx

/-! ## Tokens -/

theorem length_skipGap_le (s : Source) : (skipGap s).length ≤ s.length := by
  fun_induction skipGap s with
  | case1 c rest hgap ih => exact Nat.le_succ_of_le ih
  | case2 => exact Nat.le_refl _
  | case3 => exact Nat.le_refl _

/-- The text behind the first token is shorter. -/
theorem length_lt_of_skipGap {s rest : Source} {p : Text.Piece} (h : skipGap s = p :: rest) :
    rest.length < s.length := by
  have hle := length_skipGap_le s
  rw [h] at hle
  exact hle

theorem length_expect_le {word : List Char} {s rest : Source} (h : expect word s = .ok rest) :
    rest.length ≤ s.length := by
  induction word generalizing s with
  | nil =>
      cases h
      exact Nat.le_refl _
  | cons c word ih =>
      cases s with
      | nil => cases h
      | cons p s =>
          rw [expect] at h
          split at h
          · exact Nat.le_succ_of_le (ih h)
          · cases h

theorem length_expectColon_lt {s rest : Source} (h : expectColon s = .ok rest) :
    rest.length < s.length := by
  unfold expectColon at h
  split at h
  · cases h
  · next hcolon =>
      cases h
      exact length_lt_of_skipGap hcolon
  · cases h

theorem length_spanDigits_le (s : Source) : (spanDigits s).2.length ≤ s.length := by
  fun_induction spanDigits s with
  | case1 c rest hc ds rest' hspan ih =>
      rw [hspan] at ih
      exact Nat.le_succ_of_le ih
  | case2 => exact Nat.le_refl _
  | case3 => exact Nat.le_refl _

theorem shrinks_digits1 (ended : Fault) : Shrinks (digits1 ended) := by
  intro s ds rest h
  have hspan := length_spanDigits_le s
  unfold digits1 at h
  split at h
  · cases h
  · cases h
  · rw [Except.ok.inj h] at hspan
    exact hspan

theorem shrinks_wholePart (ended : Fault) : Shrinks (wholePart ended) := by
  intro s ds rest h
  unfold wholePart at h
  split at h
  · cases h
  · exact shrinks_digits1 ended h

theorem shrinks_fractionPart (ended : Fault) : Shrinks (fractionPart ended) := by
  intro s ds rest h
  unfold fractionPart at h
  split at h
  · exact Nat.le_succ_of_le ((shrinks_digits1 ended).map some h)
  · cases h
    exact Nat.le_refl _

theorem shrinks_exponentPart (ended : Fault) : Shrinks (exponentPart ended) := by
  intro s e rest h
  unfold exponentPart at h
  split at h
  · split at h
    · obtain ⟨⟨ds, rest'⟩, hds, he⟩ := map_eq_ok_iff.mp h
      cases he
      have hshrinks := shrinks_digits1 ended hds
      split at hshrinks <;> (dsimp only at hshrinks; simp only [List.length_cons]; omega)
    · cases h
      exact Nat.le_refl _
  · cases h
    exact Nat.le_refl _

theorem shrinks_readNumeral (ended : Fault) (negative : Bool) :
    Shrinks (readNumeral ended negative) := by
  intro s t rest h
  obtain ⟨⟨whole, s₁⟩, hwhole, h⟩ := bind_eq_ok_iff.mp h
  obtain ⟨⟨fraction, s₂⟩, hfraction, h⟩ := bind_eq_ok_iff.mp h
  obtain ⟨⟨exponent, s₃⟩, hexponent, h⟩ := bind_eq_ok_iff.mp h
  cases h
  calc rest.length ≤ s₂.length := shrinks_exponentPart ended hexponent
    _ ≤ s₁.length := shrinks_fractionPart ended hfraction
    _ ≤ s.length := shrinks_wholePart ended hwhole

theorem shrinks_readNumber (negative : Bool) : Shrinks (readNumber negative) := by
  intro s n rest h
  obtain ⟨⟨t, s₁⟩, ht, h⟩ := bind_eq_ok_iff.mp h
  dsimp only at h
  split at h
  · cases h
  · cases h
    exact shrinks_readNumeral _ _ ht

theorem shrinks_scanString (checked : Bool) (state : StringState) :
    Shrinks (scanString checked state) := by
  intro s ps rest h
  induction s generalizing state ps with
  | nil => cases h
  | cons p s ih =>
      rw [scanString] at h
      split at h
      · cases h
        exact Nat.le_succ _
      · cases h
      · obtain ⟨⟨ps', rest'⟩, hps, h⟩ := map_eq_ok_iff.mp h
        cases h
        exact Nat.le_succ_of_le (ih _ hps)

theorem shrinks_readString : Shrinks readString := by
  intro s t rest h
  obtain ⟨⟨ps, s₁⟩, hps, h⟩ := bind_eq_ok_iff.mp h
  dsimp only at h
  split at h
  · cases h
    exact shrinks_scanString true .plain hps
  · cases h

/-! ## Values -/

section Loops

variable {α : Type} {value : Source → Except Fault (α × Source)}

theorem Items.length_le {s rest : Source} {xs : List α} (h : Items value s xs rest)
    (hvalue : Shrinks value) : rest.length ≤ s.length := by
  induction h with
  | last read close =>
      have hread := hvalue read
      have hclose := length_lt_of_skipGap close
      omega
  | @comma s s' s'' rest x xs read comma more another tail ih =>
      have hread := hvalue read
      have hcomma := length_lt_of_skipGap comma
      have hskip := length_skipGap_le s''
      omega

theorem shrinks_readArray (hvalue : Shrinks value) : Shrinks (readArray value) := by
  intro s xs rest h
  unfold readArray at h
  split at h
  · cases h
  · next hclose =>
      cases h
      exact Nat.le_of_lt (length_lt_of_skipGap hclose)
  · exact Nat.le_trans ((items_of_readItems h).1.length_le hvalue) (length_skipGap_le s)

/-- The value of a member stands behind its colon. -/
theorem length_member_lt (hvalue : Shrinks value) {s rest : Source} {x : α}
    (h : expectColon s >>= value = .ok (x, rest)) : rest.length < s.length := by
  obtain ⟨t, hcolon, hx⟩ := bind_eq_ok_iff.mp h
  exact Nat.lt_of_le_of_lt (hvalue hx) (length_expectColon_lt hcolon)

theorem Entries.length_le {s rest : Source} {es : List (String × α)} (h : Entries value s es rest)
    (hvalue : Shrinks value) : rest.length ≤ s.length := by
  induction h with
  | last name read close =>
      have hname := shrinks_readString name
      have hread := length_member_lt hvalue read
      have hclose := length_lt_of_skipGap close
      omega
  | comma name read comma quote tail ih =>
      have hname := shrinks_readString name
      have hread := length_member_lt hvalue read
      have hcomma := length_lt_of_skipGap comma
      have hquote := length_lt_of_skipGap quote
      omega

theorem shrinks_readEntries (hvalue : Shrinks value) : Shrinks (readEntries value) := by
  intro s es rest h
  obtain ⟨⟨acc, rest'⟩, hobject, hes⟩ := bind_eq_ok_iff.mp h
  cases hes
  unfold readObject at hobject
  split at hobject
  · cases hobject
  · next hclose =>
      cases hobject
      exact Nat.le_of_lt (length_lt_of_skipGap hclose)
  · next hquote =>
      obtain ⟨es, hentries, -, -⟩ := entries_of_readMembers hobject
      exact Nat.le_of_lt (Nat.lt_of_le_of_lt (hentries.length_le hvalue)
        (length_lt_of_skipGap hquote))
  · cases hobject

end Loops

theorem shrinks_readValueWith_none : Shrinks (readValueWith none) := by
  have hword : ∀ {word : List Char} {x : Json} {s t rest : Source} {j : Json},
      (expect word t).map (fun s => (x, s)) = .ok (j, rest) → t.length < s.length →
        rest.length ≤ s.length := by
    intro word x s t rest j h hlt
    obtain ⟨t', hexpect, hj⟩ := map_eq_ok_iff.mp h
    cases hj
    exact Nat.le_trans (length_expect_le hexpect) (Nat.le_of_lt hlt)
  intro s j rest h
  unfold readValueWith at h
  split at h
  · cases h
  · next hskip => exact hword h (length_lt_of_skipGap hskip)
  · next hskip => exact hword h (length_lt_of_skipGap hskip)
  · next hskip => exact hword h (length_lt_of_skipGap hskip)
  · next hskip =>
      exact Nat.le_trans ((shrinks_readNumber true).map _ h)
        (Nat.le_of_lt (length_lt_of_skipGap hskip))
  · next hskip =>
      exact Nat.le_trans (shrinks_readString.map _ h) (Nat.le_of_lt (length_lt_of_skipGap hskip))
  · cases h
  · cases h
  · next hskip =>
      split at h
      · exact Nat.le_trans ((shrinks_readNumber false).map _ h) (hskip ▸ length_skipGap_le s)
      · cases h
  · cases h

theorem shrinks_readTree (d : Nat) : Shrinks (readTree d) := by
  induction d with
  | zero =>
      intro s j rest h
      cases treeAt_of_readTree h with
      | scalar no_array no_object is_scalar read =>
          exact Nat.le_trans (shrinks_readValueWith_none read) (length_skipGap_le s)
  | succ d ih =>
      intro s j rest h
      cases treeAt_of_readTree h with
      | scalar no_array no_object is_scalar read =>
          exact Nat.le_trans (shrinks_readValueWith_none read) (length_skipGap_le s)
      | array bracket read =>
          exact Nat.le_trans (shrinks_readArray ih read)
            (Nat.le_of_lt (length_lt_of_skipGap bracket))
      | object brace read =>
          exact Nat.le_trans (shrinks_readEntries ih read)
            (Nat.le_of_lt (length_lt_of_skipGap brace))

end MutationInput.Json
