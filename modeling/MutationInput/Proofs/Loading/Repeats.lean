import MutationInput.Proofs.Loading.Document

/-!
# Names that are repeated

Arguments and variables are taken one after the other, each under a name that must be new. Steps of
this kind (`Collects`) fail at the first item whose name an earlier one has, `FirstRepeat`. So do
fields, the definitions of variables, and variables that are added to an operation by hand.
-/
namespace MutationInput

variable {σ α ε : Type}

/-- An item of a list has the name of an earlier one, and no item before it has. -/
def FirstRepeat (name : α → String) (xs : List α) (x : α) : Prop :=
  ∃ before after, xs = before ++ x :: after ∧ (before.map name).Nodup ∧ name x ∈ before.map name

/-! ## Taking items of new names -/

/-- A step takes an item under its name, and refuses it if the name was seen. What was taken does
not change how the next one is refused. -/
structure Collects (step : σ → α → Except ε σ) (name : α → String) (seen : σ → List String)
    (refusal : σ → α → ε) : Prop where
  refuses : ∀ s x e, step s x = .error e ↔ name x ∈ seen s ∧ e = refusal s x
  takes : ∀ s x s', step s x = .ok s' → seen s' = seen s ++ [name x] ∧ refusal s' = refusal s

namespace Collects

variable {step : σ → α → Except ε σ} {name : α → String} {seen : σ → List String}
  {refusal : σ → α → ε}

/-- The steps fail at the first item whose name was seen before it. -/
theorem foldlM_eq_error_iff (h : Collects step name seen refusal) {xs : List α} {s : σ}
    (hs : (seen s).Nodup) {e : ε} :
    xs.foldlM step s = .error e ↔ ∃ before x after, xs = before ++ x :: after ∧
      (seen s ++ before.map name).Nodup ∧ name x ∈ seen s ++ before.map name ∧
      e = refusal s x := by
  -- The names of `before` pass into `seen` step by step, so `s` is arbitrary.
  induction xs generalizing s with
  | nil =>
      constructor
      · intro hnil
        cases hnil
      · rintro ⟨before, x, after, hnil, -⟩
        simp at hnil
  | cons y xs ih =>
      rw [List.foldlM_cons, bind_eq_error_iff, h.refuses]
      constructor
      · rintro (⟨hy, he⟩ | ⟨s', hs', hrest⟩)
        · exact ⟨[], y, xs, rfl, by simpa using hs, by simpa using hy, he⟩
        · obtain ⟨hseen, hrefusal⟩ := h.takes s y s' hs'
          have hnew : name y ∉ seen s := by
            intro hy
            cases hs'.symm.trans ((h.refuses s y _).mpr ⟨hy, rfl⟩)
          have hs'_nodup : (seen s').Nodup := by
            rw [hseen, ← List.concat_eq_append]
            exact List.Nodup.concat hnew hs
          obtain ⟨before, x, after, rfl, hnodup, hx, he⟩ := (ih hs'_nodup).mp hrest
          rw [hseen] at hnodup hx
          refine ⟨y :: before, x, after, rfl, by simpa using hnodup, by simpa using hx, ?_⟩
          rw [he, hrefusal]
      · rintro ⟨before, x, after, heq, hnodup, hx, he⟩
        cases before with
        | nil =>
            cases heq
            exact .inl ⟨by simpa using hx, he⟩
        | cons z before =>
            cases heq
            have hnew : name y ∉ seen s := by
              intro hy
              exact (List.nodup_append.mp hnodup).2.2 (name y) hy (name y) (by simp) rfl
            cases hs' : step s y with
            | error e' => exact absurd ((h.refuses s y e').mp hs').1 hnew
            | ok s' =>
                obtain ⟨hseen, hrefusal⟩ := h.takes s y s' hs'
                have hnodup' : (seen s' ++ before.map name).Nodup := by
                  simpa [hseen] using hnodup
                refine .inr ⟨s', rfl, (ih hnodup'.of_append_left).mpr
                  ⟨before, x, after, rfl, hnodup', by simpa [hseen] using hx, ?_⟩⟩
                rw [he, hrefusal]

/-- From a state in which nothing was seen, the steps fail at the first item whose name an earlier
one has. -/
theorem foldlM_eq_error_iff_firstRepeat (h : Collects step name seen refusal) {xs : List α} {s : σ}
    (hs : seen s = []) {e : ε} :
    xs.foldlM step s = .error e ↔ ∃ x, FirstRepeat name xs x ∧ e = refusal s x := by
  rw [h.foldlM_eq_error_iff (by simp [hs])]
  simp only [hs, List.nil_append, FirstRepeat]
  constructor
  · rintro ⟨before, x, after, hxs, hnodup, hx, he⟩
    exact ⟨x, ⟨before, after, hxs, hnodup, hx⟩, he⟩
  · rintro ⟨x, ⟨before, after, hxs, hnodup, hx⟩, he⟩
    exact ⟨before, x, after, hxs, hnodup, hx, he⟩

end Collects

/-! ## Arguments and variables -/

theorem Field.collects_addArgument :
    Collects (fun (g : Field) (a : String × Tree.Literal) =>
      g.addArgument a.1 (Value.ofLiteral a.2)) Prod.fst (fun g => g.arguments.keys)
      (fun g a => .duplicateArgument a.1 g.name g.location) where
  refuses := by
    intro g a e
    by_cases ha : a.1 ∈ g.arguments.keys
    · simp [addArgument, (Dict.contains_iff _ _).mpr ha, ha, eq_comm]
    · have hc : g.arguments.contains a.1 = false := by
        simpa [Bool.eq_false_iff, Dict.contains_iff] using ha
      simp [addArgument, hc, ha]
  takes := by
    intro g a g' h
    obtain ⟨hnew, rfl⟩ := addArgument_eq_ok_iff.mp h
    exact ⟨Dict.keys_insert_of_notMem hnew _, rfl⟩

/-- A field is refused at its first argument of a repeated name, with its own name and location. -/
theorem Field.load_eq_error_iff {f : Tree.Field} {e : BuildError} :
    Field.load f = .error e ↔ ∃ a, FirstRepeat Prod.fst f.arguments a ∧
      e = .duplicateArgument a.1 f.name f.location :=
  collects_addArgument.foldlM_eq_error_iff_firstRepeat rfl

theorem Operation.collects_addVariable :
    Collects (fun (op : Operation) (v : Tree.VariableDefinition) => op.addVariable v.name)
      Tree.VariableDefinition.name Operation.declared
      (fun op v => .duplicateVariable v.name op.location) where
  refuses := by
    intro op v e
    by_cases hv : v.name ∈ op.declared
    · simp [addVariable, hv, eq_comm]
    · simp [addVariable, hv]
  takes := by
    intro op v op' h
    by_cases hv : v.name ∈ op.declared
    · simp [addVariable, hv] at h
    · obtain rfl : { op with declared := op.declared ++ [v.name] } = op' := by
        simpa [addVariable, hv] using h
      exact ⟨rfl, rfl⟩

/-- One more name after those seen, if it is new. -/
def declare (seen : List String) (v : Tree.VariableDefinition) : Except BuildError (List String) :=
  if seen.contains v.name then .error (.duplicateVariable v.name v.location)
  else .ok (seen ++ [v.name])

theorem loadVariables_eq_foldlM (seen : List String) (definitions : List Tree.VariableDefinition) :
    loadVariables seen definitions = definitions.foldlM declare seen := by
  induction definitions generalizing seen with
  | nil => rfl
  | cons v rest ih =>
      rw [loadVariables, List.foldlM_cons, declare]
      by_cases hv : seen.contains v.name = true
      · rw [if_pos hv, if_pos hv]
        rfl
      · rw [if_neg hv, if_neg hv]
        exact ih _

theorem collects_declare :
    Collects declare Tree.VariableDefinition.name id
      (fun _ v => .duplicateVariable v.name v.location) where
  refuses := by
    intro seen v e
    by_cases hv : v.name ∈ seen
    · simp [declare, hv, eq_comm]
    · simp [declare, hv]
  takes := by
    intro seen v seen' h
    by_cases hv : v.name ∈ seen
    · simp [declare, hv] at h
    · exact ⟨by simpa [declare, hv, eq_comm] using h, rfl⟩

/-- Definitions of variables are refused at the first of a repeated name, with its location. -/
theorem loadVariables_eq_error_iff {definitions : List Tree.VariableDefinition} {e : BuildError} :
    loadVariables [] definitions = .error e ↔
      ∃ v, FirstRepeat Tree.VariableDefinition.name definitions v ∧
        e = .duplicateVariable v.name v.location := by
  rw [loadVariables_eq_foldlM]
  exact collects_declare.foldlM_eq_error_iff_firstRepeat rfl

end MutationInput
