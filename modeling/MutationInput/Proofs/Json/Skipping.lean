import MutationInput.Proofs.Json.Accord

/-!
# Skipping a value

Where a value can be read it can be skipped, and the same text follows: `skipValue_of_readTree`.
Skipping looks at the form of strings and numbers only, so it passes over more than reading does.
-/
namespace MutationInput.Json

/-! ## Strings and numbers -/

/-- Where the machine stands if it does not look at the units that are spelled. -/
def StringState.unchecked : StringState → StringState
  | .plain => .plain
  | .escape => .escape
  | .hex _ digits => .hex none digits
  | .surrogate _ => .plain
  | .surrogateEscape _ => .escape

theorem unitStep_unchecked {high : Option Nat} {n : Nat} {state : StringState}
    {out : Option Text.Piece} (h : unitStep true high n = .next state out) :
    state.unchecked = .plain := by
  simp only [unitStep] at h
  repeat' split at h
  all_goals cases h
  all_goals rfl

/-- A step of the machine that looks at the units is one of the machine that does not. -/
theorem stringStep_unchecked {state state' : StringState} {p : Text.Piece}
    {out : Option Text.Piece} (h : stringStep true state p = .next state' out) :
    ∃ out', stringStep false state.unchecked p = .next state'.unchecked out' := by
  cases state with
  | plain | escape =>
      -- Outside the digits of a unit both machines take the same step.
      have hstate : state'.unchecked = state' := by
        simp only [stringStep] at h
        repeat' split at h
        all_goals cases h
        all_goals rfl
      exact ⟨out, hstate.symm ▸ h⟩
  | hex high digits =>
      simp only [stringStep] at h
      split at h
      · next hshort =>
          cases h
          exact ⟨none, if_pos hshort⟩
      · next hshort =>
          split at h
          · next n hunit =>
              refine ⟨none, ?_⟩
              rw [unitStep_unchecked h]
              simp only [StringState.unchecked, stringStep, if_neg hshort, hunit]
              rfl
          · cases h
  | surrogate high =>
      simp only [stringStep] at h
      split at h
      · next hp =>
          cases h
          exact ⟨none, by rw [hp]; rfl⟩
      · cases h
  | surrogateEscape high =>
      simp only [stringStep] at h
      split at h
      · next hp =>
          cases h
          exact ⟨none, by rw [hp]; rfl⟩
      · cases h

theorem stringStep_unchecked_close {state : StringState} {p : Text.Piece}
    (h : stringStep true state p = .close) : stringStep false state.unchecked p = .close := by
  cases state with
  | plain => exact h
  | escape => exact h
  | hex high digits =>
      simp only [stringStep, unitStep] at h
      repeat' split at h
      all_goals cases h
  | surrogate high =>
      simp only [stringStep] at h
      split at h <;> cases h
  | surrogateEscape high =>
      simp only [stringStep] at h
      split at h <;> cases h

theorem scanString_unchecked {state : StringState} {s rest : Source} {ps : List Text.Piece}
    (h : scanString true state s = .ok (ps, rest)) :
    ∃ ps', scanString false state.unchecked s = .ok (ps', rest) := by
  induction s generalizing state ps with
  | nil => cases h
  | cons p s ih =>
      rw [scanString] at h
      split at h
      · next hclose =>
          cases h
          exact ⟨[], by rw [scanString, stringStep_unchecked_close hclose]⟩
      · cases h
      · next state' out hnext =>
          obtain ⟨⟨ps', rest'⟩, hps, h⟩ := map_eq_ok_iff.mp h
          cases h
          obtain ⟨out', hnext'⟩ := stringStep_unchecked hnext
          obtain ⟨ps'', hps''⟩ := ih hps
          exact ⟨out'.toList ++ ps'', by simp [scanString, hnext', hps'', Except.map]⟩

theorem skipString_of_readString {s rest : Source} {t : String} (h : readString s = .ok (t, rest)) :
    skipString s = .ok rest := by
  obtain ⟨⟨ps, s'⟩, hps, h⟩ := bind_eq_ok_iff.mp h
  dsimp only at h
  split at h
  · cases h
    obtain ⟨ps', hps'⟩ := scanString_unchecked hps
    rw [skipString, show StringState.plain = StringState.plain.unchecked from rfl, hps']
    rfl
  · cases h

theorem digits1_ok {ended : Fault} {s rest : Source} {ds : List Char}
    (h : digits1 ended s = .ok (ds, rest)) (ended' : Fault) :
    digits1 ended' s = .ok (ds, rest) := by
  unfold digits1 at h ⊢
  split at h
  · cases h
  · cases h
  · exact h

theorem wholePart_ok {ended : Fault} {s rest : Source} {ds : List Char}
    (h : wholePart ended s = .ok (ds, rest)) (ended' : Fault) :
    wholePart ended' s = .ok (ds, rest) := by
  unfold wholePart at h ⊢
  split at h
  · cases h
  · next hzero =>
      rw [digits1_ok h ended']
      split
      · next hds => exact absurd (h.trans hds) (hzero _ _ _)
      · rfl

theorem fractionPart_ok {ended : Fault} {s rest : Source} {ds : Option (List Char)}
    (h : fractionPart ended s = .ok (ds, rest)) (ended' : Fault) :
    fractionPart ended' s = .ok (ds, rest) := by
  unfold fractionPart at h ⊢
  split at h
  · obtain ⟨⟨ds', rest'⟩, hds, h⟩ := map_eq_ok_iff.mp h
    exact map_eq_ok_iff.mpr ⟨_, digits1_ok hds ended', h⟩
  · exact h

theorem exponentPart_ok {ended : Fault} {s rest : Source} {e : Option (Bool × List Char)}
    (h : exponentPart ended s = .ok (e, rest)) (ended' : Fault) :
    exponentPart ended' s = .ok (e, rest) := by
  unfold exponentPart at h ⊢
  split at h
  · split at h
    · next hmark =>
        obtain ⟨⟨ds', rest'⟩, hds, h⟩ := map_eq_ok_iff.mp h
        rw [if_pos hmark]
        exact map_eq_ok_iff.mpr ⟨(ds', rest'), digits1_ok hds ended', h⟩
    · next hmark =>
        rw [if_neg hmark]
        exact h
  · exact h

/-- A numeral is the same whichever fault the end of the text would have been. -/
theorem readNumeral_ok {ended : Fault} {negative : Bool} {s rest : Source} {t : Numeral}
    (h : readNumeral ended negative s = .ok (t, rest)) (ended' : Fault) :
    readNumeral ended' negative s = .ok (t, rest) := by
  obtain ⟨⟨whole, s₁⟩, hwhole, h⟩ := bind_eq_ok_iff.mp h
  obtain ⟨⟨fraction, s₂⟩, hfraction, h⟩ := bind_eq_ok_iff.mp h
  obtain ⟨⟨exponent, s₃⟩, hexponent, h⟩ := bind_eq_ok_iff.mp h
  exact bind_eq_ok_iff.mpr ⟨_, wholePart_ok hwhole ended', bind_eq_ok_iff.mpr
    ⟨_, fractionPart_ok hfraction ended', bind_eq_ok_iff.mpr
      ⟨_, exponentPart_ok hexponent ended', h⟩⟩⟩

theorem readNumeral_of_readNumber {negative : Bool} {s rest : Source} {n : Number}
    (h : readNumber negative s = .ok (n, rest)) :
    ∃ t, readNumeral .malformed negative s = .ok (t, rest) := by
  obtain ⟨⟨t, s'⟩, ht, h⟩ := bind_eq_ok_iff.mp h
  dsimp only at h
  split at h
  · cases h
  · cases h
    exact ⟨t, readNumeral_ok ht .malformed⟩

/-! ## Values -/

theorem skipValueAt_of_scalar {s rest : Source} {j : Json}
    (h : readValueWith none (skipGap s) = .ok (j, rest)) (n : Nat) :
    skipValueAt (n + 1) s = .ok ((), rest) := by
  have hword : ∀ {word : List Char} {x : Json} {t : Source},
      (expect word t).map (fun s => (x, s)) = .ok (j, rest) →
        (expect word t).map (fun s => ((), s)) = .ok ((), rest) := by
    intro word x t h
    obtain ⟨t', hexpect, hj⟩ := map_eq_ok_iff.mp h
    cases hj
    rw [hexpect]
    rfl
  have hnumber : ∀ {negative : Bool} {t : Source},
      (readNumber negative t).map (fun r => (Json.number r.1, r.2)) = .ok (j, rest) →
        (readNumeral .malformed negative t).map (fun r => ((), r.2)) = .ok ((), rest) := by
    intro negative t h
    obtain ⟨⟨x, t'⟩, hread, hj⟩ := map_eq_ok_iff.mp h
    cases hj
    obtain ⟨numeral, hnumeral⟩ := readNumeral_of_readNumber hread
    rw [hnumeral]
    rfl
  simp only [readValueWith, skipGap_skipGap, skipValueAt] at h ⊢
  split at h
  · cases h
  · exact hword h
  · exact hword h
  · exact hword h
  · exact hnumber h
  · obtain ⟨⟨t, t'⟩, hread, hj⟩ := map_eq_ok_iff.mp h
    cases hj
    simp only [skipString_of_readString hread]
    rfl
  · cases h
  · cases h
  · split at h
    · next hdigit =>
        rw [if_pos hdigit]
        exact hnumber h
    · cases h
  · cases h

section Containers

variable {d n : Nat} {t rest : Source}
  (h : ∀ t' j r, t'.length ≤ t.length → readTree d t' = .ok (j, r) → skipValueAt n t' = .ok ((), r))

include h

/-- An array is skipped if each of its items is. -/
theorem skipArray_of_readArray {items : List Json}
    (hread : readArray (readTree d) t = .ok (items, rest)) :
    ∃ units, readArray (skipValueAt n) t = .ok (units, rest) := by
  have haccords : Accords rest (items.mapM fun _ => .ok ()) (readArray (skipValueAt n) t) :=
    accords_readArray hread (shrinks_readTree d) fun t' j r ht' _ hread => by
      rw [h t' j r ht' hread]
      exact .ok ()
  have hunits : items.mapM (fun _ => .ok ()) =
      (.ok (items.map fun _ => ()) : Except Mismatch (List Unit)) := List.mapM_pure
  rw [hunits] at haccords
  exact ⟨_, haccords.eq_ok⟩

/-- An object is skipped if the value of each of its members is. -/
theorem skipObject_of_readEntries {members : List (String × Json)}
    (hread : readEntries (readTree d) t = .ok (members, rest)) :
    readObject (fun s => (skipString s).map ((), ·)) (fun _ _ s => expectColon s >>= skipValueAt n)
      () t = .ok ((), rest) := by
  have hname : ∀ t' (k : String) r, readString t' = .ok (k, r) →
      (skipString t').map ((), ·) = .ok ((), r) := by
    intro t' k r hk
    rw [skipString_of_readString hk]
    rfl
  have haccords : Accords rest (members.foldlM (fun _ _ => .ok ()) ())
      (readObject (fun s => (skipString s).map ((), ·))
        (fun _ _ s => expectColon s >>= skipValueAt n) () t) := by
    refine accords_readObject hread (shrinks_readTree d) hname ?_ ()
    intro _ t' k j r ht' _ hmember
    obtain ⟨t'', hcolon, hj⟩ := bind_eq_ok_iff.mp hmember
    have hlt := length_expectColon_lt hcolon
    change Accords r (.ok ()) (expectColon t' >>= skipValueAt n)
    rw [hcolon]
    change Accords r (.ok ()) (skipValueAt n t'')
    rw [h t'' j r (by omega) hj]
    exact .ok ()
  have hunit : members.foldlM (fun _ _ => .ok ()) () = (.ok () : Except Mismatch Unit) :=
    List.foldlM_pure
  rw [hunit] at haccords
  exact haccords.eq_ok

end Containers

theorem skipValueAt_of_readTree {d : Nat} {s rest : Source} {j : Json}
    (h : readTree d s = .ok (j, rest)) {n : Nat} (hn : s.length < n) :
    skipValueAt n s = .ok ((), rest) := by
  obtain ⟨n, rfl⟩ := Nat.exists_eq_add_one_of_ne_zero (Nat.ne_zero_of_lt hn)
  induction d generalizing s rest j n with
  | zero =>
      cases treeAt_of_readTree h with
      | scalar no_array no_object is_scalar read => exact skipValueAt_of_scalar read n
  | succ d ih =>
      -- What is inside an array or object is shorter than `s`, so one level less is enough for it.
      have hinner : ∀ {p : Text.Piece} {t : Source}, skipGap s = p :: t →
          ∀ t' j r, t'.length ≤ t.length → readTree d t' = .ok (j, r) →
            skipValueAt n t' = .ok ((), r) := by
        intro p t hskip t' j r ht' hread
        have ht := length_lt_of_skipGap hskip
        obtain ⟨m, rfl⟩ := Nat.exists_eq_add_one_of_ne_zero (n := n) (by omega)
        exact ih hread m (by omega)
      cases treeAt_of_readTree h with
      | scalar no_array no_object is_scalar read => exact skipValueAt_of_scalar read n
      | array bracket read =>
          obtain ⟨units, hunits⟩ := skipArray_of_readArray (hinner bracket) read
          simp only [skipValueAt, bracket, hunits]
          rfl
      | object brace read =>
          simp only [skipValueAt, brace]
          exact skipObject_of_readEntries (hinner brace) read

/-- A value that can be read is skipped up to the same place. -/
theorem skipValue_of_readTree {d : Nat} {s rest : Source} {j : Json}
    (h : readTree d s = .ok (j, rest)) : skipValue s = .ok rest := by
  rw [skipValue, skipValueAt_of_readTree h (Nat.lt_succ_self _)]
  rfl

end MutationInput.Json
