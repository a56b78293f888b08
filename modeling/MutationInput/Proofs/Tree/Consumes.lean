import MutationInput.Proofs.Tree.Takes
import MutationInput.Tree.Grammar

/-!
# What a parser leaves

A parser reads from the front, so what it leaves is an end of the text that it was given. That is
`Consumes`, a class: each way of building a parser keeps it, and so every rule of the grammar has it
by the way in which it is built. Nothing here depends on what a rule reads.
-/
namespace MutationInput.Tree.Parser

variable {α β : Type} {p q : Parser α} {f : α → Parser β}

/-- What a parser leaves is an end of the text that it was given. -/
class Consumes (p : Parser α) : Prop where
  suffix : ∀ {s s' : Located} {x : α}, p s = some (x, s') → s' <:+ s

/-! ## Sequences and choices -/

theorem bind_eq_some_iff {s : Located} {r : β × Located} :
    (p >>= f) s = some r ↔ ∃ x s', p s = some (x, s') ∧ f x s' = some r := by
  cases hp : p s with
  | none => simp [bind_of_eq_none hp]
  | some y =>
      obtain ⟨x, s'⟩ := y
      rw [bind_of_eq_some hp]
      constructor
      · intro h
        exact ⟨x, s', rfl, h⟩
      · rintro ⟨_, _, heq, h⟩
        cases heq
        exact h

theorem orElse_eq_some_iff {s : Located} {r : α × Located} :
    (p <|> q) s = some r ↔ p s = some r ∨ (p s = none ∧ q s = some r) := by
  cases hp : p s with
  | none => simp [orElse_of_eq_none hp]
  | some y => simp [orElse_of_eq_some hp]

instance consumes_pure (x : α) : Consumes (pure x : Parser α) where
  suffix := by
    intro s s' y h
    cases h
    exact List.suffix_refl s

instance consumes_bind [hp : Consumes p] [hf : ∀ x, Consumes (f x)] : Consumes (p >>= f) where
  suffix := by
    intro s s'' y h
    obtain ⟨x, s', hx, hy⟩ := bind_eq_some_iff.mp h
    exact ((hf x).suffix hy).trans (hp.suffix hx)

instance consumes_fail : Consumes (fail : Parser α) where
  suffix := by
    intro s s' x h
    cases h

instance consumes_ite {c : Prop} [Decidable c] [hp : Consumes p] [hq : Consumes q] :
    Consumes (if c then p else q) := by
  split
  · exact hp
  · exact hq

instance consumes_orElse [hp : Consumes p] [hq : Consumes q] : Consumes (p <|> q) where
  suffix := by
    intro s s' x h
    rcases orElse_eq_some_iff.mp h with h | ⟨-, h⟩
    · exact hp.suffix h
    · exact hq.suffix h

instance consumes_optional [hp : Consumes p] : Consumes (optional p) where
  suffix := by
    intro s s' x h
    simp only [optional] at h
    cases hps : p s with
    | none =>
        rw [hps] at h
        cases h
        exact List.suffix_refl s
    | some y =>
        obtain ⟨x', s''⟩ := y
        rw [hps] at h
        cases h
        exact hp.suffix hps

/-- Looking ahead reads nothing, whatever is looked for. -/
instance consumes_notNext : Consumes (notNext p) where
  suffix := by
    intro s s' x h
    simp only [notNext] at h
    cases hps : p s with
    | none =>
        rw [hps] at h
        cases h
        exact List.suffix_refl s
    | some y =>
        rw [hps] at h
        cases h

/-! ## Repetitions -/

theorem suffix_manyUpTo [hp : Consumes p] (n : Nat) (s : Located) : (manyUpTo p n s).2 <:+ s := by
  induction n generalizing s with
  | zero => exact List.suffix_refl s
  | succ n ih =>
      simp only [manyUpTo]
      cases hps : p s with
      | none => exact List.suffix_refl s
      | some y => exact (ih y.2).trans (hp.suffix hps)

instance consumes_many [Consumes p] : Consumes (many p) where
  suffix := by
    intro s s' xs h
    have hmany : manyUpTo p s.length s = (xs, s') := Option.some.inj h
    simpa [hmany] using suffix_manyUpTo (p := p) s.length s

instance consumes_many1 [Consumes p] : Consumes (many1 p) := by
  unfold many1
  infer_instance

/-! ## Characters -/

instance consumes_here : Consumes here where
  suffix := by
    intro s s' l h
    cases s with
    | nil => cases h
    | cons e s =>
        cases h
        exact List.suffix_refl _

instance consumes_atEnd : Consumes atEnd where
  suffix := by
    intro s s' x h
    cases s with
    | nil =>
        cases h
        exact List.suffix_refl []
    | cons e s => cases h

/-- A character of a class was there and is read. -/
theorem satisfy_eq_some_iff {c : Char} {k : Char → Bool} {s s' : Located} :
    satisfy k s = some (c, s') ↔ k c = true ∧ ∃ l, s = (c, l) :: s' := by
  cases s with
  | nil => simp [satisfy]
  | cons e s =>
      obtain ⟨d, l⟩ := e
      by_cases hd : k d = true
      · rw [satisfy, if_pos hd]
        constructor
        · intro h
          cases h
          exact ⟨hd, l, rfl⟩
        · rintro ⟨-, _, h⟩
          cases h
          rfl
      · rw [satisfy, if_neg hd]
        constructor
        · intro h
          cases h
        · rintro ⟨hc, _, h⟩
          cases h
          exact absurd hc hd

instance consumes_satisfy (k : Char → Bool) : Consumes (satisfy k) where
  suffix := by
    intro s s' c h
    obtain ⟨-, l, rfl⟩ := satisfy_eq_some_iff.mp h
    exact List.suffix_cons _ _

instance consumes_word (w : List Char) : Consumes (word w) where
  suffix := by
    induction w with
    | nil =>
        intro s s' x h
        cases h
        exact List.suffix_refl s
    | cons c w ih =>
        intro s s' x h
        cases s with
        | nil => cases h
        | cons e s =>
            simp only [word] at h
            split at h
            · exact (ih h).trans (List.suffix_cons _ _)
            · cases h

theorem suffix_span (k : Char → Bool) (s : Located) : (span k s).2 <:+ s := by
  induction s with
  | nil => exact List.suffix_refl []
  | cons e s ih =>
      simp only [span]
      split
      · exact ih.trans (List.suffix_cons _ _)
      · exact List.suffix_refl _

instance consumes_takeMany (k : Char → Bool) : Consumes (takeMany k) where
  suffix := by
    intro s s' cs h
    have hspan : span k s = (cs, s') := Option.some.inj h
    simpa [hspan] using suffix_span k s

instance consumes_takeMany1 (k : Char → Bool) : Consumes (takeMany1 k) where
  suffix := by
    intro s s' cs h
    have hspan : span k s = (cs, s') := by
      simp only [takeMany1] at h
      split at h
      · cases h
      · exact Option.some.inj h
    simpa [hspan] using suffix_span k s

mutual

theorem suffix_skipBlank : ∀ s : Located, skipBlank s <:+ s
  | [] => List.suffix_refl []
  | (c, l) :: s => by
      rw [skipBlank]
      split
      · exact (suffix_skipBlank s).trans (List.suffix_cons _ _)
      · split
        · exact (suffix_skipComment s).trans (List.suffix_cons _ _)
        · exact List.suffix_refl _

theorem suffix_skipComment : ∀ s : Located, skipComment s <:+ s
  | [] => List.suffix_refl []
  | (c, l) :: s => by
      rw [skipComment]
      split
      · exact (suffix_skipBlank s).trans (List.suffix_cons _ _)
      · exact (suffix_skipComment s).trans (List.suffix_cons _ _)

end

instance consumes_blank : Consumes blank where
  suffix := by
    intro s s' x h
    cases h
    exact suffix_skipBlank s

/-! ## Strings -/

theorem suffix_scanQuoted {s s' : Located} {cs : List Char} (h : scanQuoted s = some (cs, s')) :
    s' <:+ s := by
  fun_induction scanQuoted s generalizing cs with
  | case1 => cases h
  | case2 =>
      cases h
      exact List.suffix_cons _ _
  | case3 => cases h
  | case4 _ _ _ _ _ _ _ _ _ _ s _ _ ih =>
      obtain ⟨n, -, hn⟩ := Option.bind_eq_some_iff.mp h
      split at hn
      · cases hn
      · obtain ⟨⟨_, _⟩, hs, hpushed⟩ := Option.bind_eq_some_iff.mp hn
        cases hpushed
        exact (ih hs).trans (List.suffix_append [_, _, _, _, _, _] s)
  | case5 _ _ _ s _ _ _ ih =>
      obtain ⟨c, -, hc⟩ := Option.bind_eq_some_iff.mp h
      obtain ⟨⟨_, _⟩, hs, hpushed⟩ := Option.bind_eq_some_iff.mp hc
      cases hpushed
      exact (ih hs).trans (List.suffix_append [_, _] s)
  | case6 => cases h
  | case7 _ _ s _ _ _ ih =>
      obtain ⟨⟨_, _⟩, hs, hpushed⟩ := Option.bind_eq_some_iff.mp h
      cases hpushed
      exact (ih hs).trans (List.suffix_cons _ s)

theorem suffix_scanBlock {s s' : Located} {cs : List Char} (h : scanBlock s = some (cs, s')) :
    s' <:+ s := by
  fun_induction scanBlock s generalizing cs with
  | case1 =>
      cases h
      exact List.suffix_append [_, _, _] _
  | case2 _ _ _ _ s ih =>
      obtain ⟨⟨_, _⟩, hs, hpushed⟩ := Option.bind_eq_some_iff.mp h
      cases hpushed
      exact (ih hs).trans (List.suffix_append [_, _, _, _] s)
  | case3 _ _ s _ _ ih =>
      obtain ⟨⟨_, _⟩, hs, hpushed⟩ := Option.bind_eq_some_iff.mp h
      cases hpushed
      exact (ih hs).trans (List.suffix_cons _ s)
  | case4 => cases h

instance consumes_scanQuoted : Consumes scanQuoted := ⟨suffix_scanQuoted⟩

instance consumes_scanBlock : Consumes scanBlock := ⟨suffix_scanBlock⟩

instance consumes_stringLiteral : Consumes stringLiteral := by
  unfold stringLiteral blockString quotedString
  infer_instance

/-! ## Tokens and literals -/

instance consumes_token [Consumes p] : Consumes (token p) := by
  unfold token
  infer_instance

instance consumes_keyword (w : String) : Consumes (keyword w) := by
  unfold keyword
  infer_instance

instance consumes_bareName : Consumes bareName := by
  unfold bareName
  infer_instance

instance consumes_name : Consumes name := by
  unfold name
  infer_instance

instance consumes_numeral : Consumes numeral := by
  unfold numeral minus wholeDigits fraction exponent
  infer_instance

instance consumes_variableName : Consumes variableName := by
  unfold variableName
  infer_instance

instance consumes_scalarLiteral : Consumes scalarLiteral := by
  unfold scalarLiteral boolean
  infer_instance

instance consumes_labelled [Consumes p] : Consumes (labelled p) := by
  unfold labelled
  infer_instance

instance consumes_literal (constant : Bool) (depth : Nat) : Consumes (literal constant depth) := by
  induction depth with
  | zero =>
      unfold literal
      infer_instance
  | succ depth ih =>
      unfold literal
      infer_instance

/-! ## Arguments, directives and variables -/

instance consumes_arguments? (depth : Nat) : Consumes (arguments? depth) := by
  unfold arguments? arguments
  infer_instance

instance consumes_directive (depth : Nat) : Consumes (directive depth) := by
  unfold directive
  infer_instance

instance consumes_bareType (depth : Nat) : Consumes (bareType depth) := by
  induction depth with
  | zero =>
      unfold bareType
      infer_instance
  | succ depth ih =>
      unfold bareType
      infer_instance

instance consumes_variableDefinition (depth : Nat) : Consumes (variableDefinition depth) := by
  unfold variableDefinition
  infer_instance

instance consumes_variableDefinitions (depth : Nat) : Consumes (variableDefinitions depth) := by
  unfold variableDefinitions
  infer_instance

/-! ## Selections and definitions -/

instance consumes_typeCondition : Consumes typeCondition := by
  unfold typeCondition
  infer_instance

instance consumes_selection (depth : Nat) (nested : Parser (List Selection)) [Consumes nested] :
    Consumes (selection depth nested) := by
  unfold selection field inlineFragment fragmentSpread
  infer_instance

instance consumes_selectionSet (depth : Nat) : Consumes (selectionSet depth) := by
  induction depth with
  | zero =>
      unfold selectionSet
      infer_instance
  | succ depth ih =>
      unfold selectionSet
      infer_instance

instance consumes_fragmentDefinition (depth : Nat) : Consumes (fragmentDefinition depth) := by
  unfold fragmentDefinition
  infer_instance

end MutationInput.Tree.Parser
