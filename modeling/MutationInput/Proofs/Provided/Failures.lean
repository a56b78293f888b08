import MutationInput.Proofs.Provided.Gather

/-!
# Why a resolution fails

A resolution fails at the first of its checks that fails: an operation, that it is a mutation, a
field name, a selection of the field at the top level, and then the occurrences that are inspected,
one after the other. `resolve_eq_error_iff` lists the errors with their conditions, and no other
error arises.
-/
namespace MutationInput

/-- A resolution in which `names` are requested, and bindings are required or not, is refused in a
context with an error. -/
inductive Context.Refuses (ctx : Context) (names : List String) (require : Bool) :
    ProvidedError → Prop where
  | no_operation (operation : ctx.operation = none) :
      Refuses ctx names require (.missingContext .operation)
  | not_a_mutation {op : Operation} (operation : ctx.operation = some op)
      (kind : op.kind ≠ .mutation) : Refuses ctx names require (.notAMutation op.kind)
  | no_field_name {op : Operation} (operation : ctx.operation = some op)
      (kind : op.kind = .mutation) (field : ctx.fieldName = none) :
      Refuses ctx names require (.missingContext .fieldName)
  | not_selected {op : Operation} {fieldName : String} (operation : ctx.operation = some op)
      (kind : op.kind = .mutation) (field : ctx.fieldName = some fieldName)
      (selections : ∀ s nested, Selection.field s nested ∈ op.selections → s.name ≠ fieldName) :
      Refuses ctx names require (.fieldNotFound fieldName)
  | occurrence {op : Operation} {fieldName : String} {before after : List Occurrence}
      {o : Occurrence} {e : ProvidedError} (operation : ctx.operation = some op)
      (kind : op.kind = .mutation) (field : ctx.fieldName = some fieldName)
      (split : op.occurrences fieldName names.eraseDups = before ++ o :: after)
      (first : ∀ earlier ∈ before, ∀ e', ¬earlier.Fails ctx.bindings names require e')
      (fails : o.Fails ctx.bindings names require e) : Refuses ctx names require e

/-- The field is not selected if no selection at the top level has its name. -/
theorem Operation.selected_eq_nil_iff (op : Operation) (fieldName : String) :
    op.selected fieldName = [] ↔
      ∀ s nested, Selection.field s nested ∈ op.selections → s.name ≠ fieldName := by
  rw [List.eq_nil_iff_forall_not_mem]
  simp only [Operation.selected, Operation.mem_selectedAmong, not_and]
  constructor
  · intro h s nested hs
    exact h s ⟨nested, hs⟩
  · rintro h s ⟨nested, hs⟩
    exact h s nested hs

/-- Requesting a name more than once does not change what fails. -/
theorem Occurrence.fails_eraseDups {bindings : Variables} {names : List String} {require : Bool}
    {o : Occurrence} {e : ProvidedError} :
    o.Fails bindings names.eraseDups require e ↔ o.Fails bindings names require e := by
  constructor
  · intro h
    exact Value.Fails.mono h (mt (Dict.eraseDups_eq_nil_iff names).mpr)
  · intro h
    exact Value.Fails.mono h (mt (Dict.eraseDups_eq_nil_iff names).mp)

/-- For a mutation and a known field, a resolution fails if the field is not selected, or else at
the first occurrence that fails. -/
theorem resolve_mutation_eq_error_iff {ctx : Context} {op : Operation} {fieldName : String}
    {names : List String} {require : Bool} {e : ProvidedError}
    (hop : ctx.operation = some op) (hk : op.kind = .mutation)
    (hf : ctx.fieldName = some fieldName) :
    (((Inspection.all.request names).requiring require).resolve ctx).result = .error e ↔
      (op.selected fieldName = [] ∧ e = .fieldNotFound fieldName) ∨
        ∃ before o after, op.occurrences fieldName names.eraseDups = before ++ o :: after ∧
          (∀ earlier ∈ before, ∀ e', ¬earlier.Fails ctx.bindings names require e') ∧
          o.Fails ctx.bindings names require e := by
  rw [Inspection.result_resolve hop hk hf]
  by_cases hs : op.selected fieldName = []
  · have hnone : op.occurrences fieldName names.eraseDups = [] := by
      simp [Operation.occurrences, hs]
    simp [hs, hnone, eq_comm]
  · rw [if_neg hs, Inspection.gather_eq_error_iff]
    simp [hs, Inspection.requiring, Inspection.requested_all_request, Occurrence.fails_eraseDups]

/-- A resolution fails exactly with the errors that its context refuses it with. -/
theorem resolve_eq_error_iff (ctx : Context) (names : List String) (require : Bool)
    (e : ProvidedError) :
    (((Inspection.all.request names).requiring require).resolve ctx).result = .error e ↔
      ctx.Refuses names require e := by
  constructor
  · intro h
    cases hop : ctx.operation with
    | none =>
        cases (Inspection.result_resolve_no_operation hop).symm.trans h
        exact .no_operation hop
    | some op =>
        by_cases hk : op.kind = .mutation
        · cases hf : ctx.fieldName with
          | none =>
              cases (Inspection.result_resolve_no_field_name hop hk hf).symm.trans h
              exact .no_field_name hop hk hf
          | some fieldName =>
              rcases (resolve_mutation_eq_error_iff hop hk hf).mp h with ⟨hs, rfl⟩ |
                ⟨before, o, after, hsplit, hfirst, hfails⟩
              · exact .not_selected hop hk hf ((op.selected_eq_nil_iff fieldName).mp hs)
              · exact .occurrence hop hk hf hsplit hfirst hfails
        · cases (Inspection.result_resolve_not_mutation hop hk).symm.trans h
          exact .not_a_mutation hop hk
  · intro h
    cases h with
    | no_operation hop => exact Inspection.result_resolve_no_operation hop
    | not_a_mutation hop hk => exact Inspection.result_resolve_not_mutation hop hk
    | no_field_name hop hk hf => exact Inspection.result_resolve_no_field_name hop hk hf
    | not_selected hop hk hf hs =>
        exact (resolve_mutation_eq_error_iff hop hk hf).mpr
          (.inl ⟨(Operation.selected_eq_nil_iff _ _).mpr hs, rfl⟩)
    | occurrence hop hk hf hsplit hfirst hfails =>
        exact (resolve_mutation_eq_error_iff hop hk hf).mpr
          (.inr ⟨_, _, _, hsplit, hfirst, hfails⟩)

end MutationInput
