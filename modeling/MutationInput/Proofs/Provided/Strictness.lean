import MutationInput.Proofs.Provided.Requests

/-!
# What requiring bindings changes

If bindings are required, an occurrence fails where it would fail anyway, with the same error, and
besides where it passes a variable without binding (`Value.fails_false_iff`). So of two resolutions
that differ in the requirement alone, the one that requires bindings gives the same answer or the
same error, or it names an argument with such a variable: `strict_refines`.
-/
namespace MutationInput

/-- The error of an argument that passes a variable without binding. -/
def ProvidedError.IsUnbound (e : ProvidedError) : Prop :=
  ∃ argument name, e = .unboundVariable argument name

/-- A resolution of the context looks at an argument that passes a variable without binding. -/
structure Context.PassesUnbound (ctx : Context) (names : List String)
    (argument name : String) : Prop where
  no_binding : ctx.bindings.get? name = none
  passed : ∃ op fieldName o, ctx.operation = some op ∧ op.kind = .mutation ∧
    ctx.fieldName = some fieldName ∧ op.Inspects fieldName names o ∧ o.argument = argument ∧
    o.value = .variable name

/-! ## One occurrence -/

/-- Where no binding is required, a value fails as it does where bindings are required, unless it
is a variable without one. -/
theorem Value.fails_false_iff {bindings : Variables} {names : List String} {argument : String}
    {v : Value} {e : ProvidedError} :
    v.Fails bindings names false argument e ↔
      v.Fails bindings names true argument e ∧ ¬e.IsUnbound := by
  constructor
  · intro h
    cases h with
    | unbound _ required => cases required
    | literal requested not_object not_variable =>
        refine ⟨.literal requested not_object not_variable, ?_⟩
        rintro ⟨_, _, h⟩
        cases h
    | bound requested binding not_mapping =>
        refine ⟨.bound requested binding not_mapping, ?_⟩
        rintro ⟨_, _, h⟩
        cases h
  · rintro ⟨h, hne⟩
    cases h with
    | unbound => exact absurd ⟨_, _, rfl⟩ hne
    | literal requested not_object not_variable =>
        exact .literal requested not_object not_variable
    | bound requested binding not_mapping => exact .bound requested binding not_mapping

/-- An occurrence that is refused for want of a binding passes a variable without one. -/
theorem Occurrence.Fails.eq_variable {bindings : Variables} {names : List String} {require : Bool}
    {o : Occurrence} {argument name : String}
    (h : o.Fails bindings names require (.unboundVariable argument name)) :
    o.argument = argument ∧ o.value = .variable name ∧ bindings.get? name = none := by
  obtain ⟨selection, a, v⟩ := o
  cases h with
  | unbound binding => exact ⟨rfl, rfl, binding⟩

/-! ## A whole resolution -/

namespace Context

variable {ctx : Context} {names : List String}

/-- A context that is refused for another reason than a missing binding is refused for it whether
bindings are required or not. -/
theorem Refuses.lenient {e : ProvidedError} (h : ctx.Refuses names true e) (he : ¬e.IsUnbound) :
    ctx.Refuses names false e := by
  cases h with
  | no_operation operation => exact .no_operation operation
  | not_a_mutation operation kind => exact .not_a_mutation operation kind
  | no_field_name operation kind field => exact .no_field_name operation kind field
  | not_selected operation kind field selections =>
      exact .not_selected operation kind field selections
  | occurrence operation kind field split first fails =>
      refine .occurrence operation kind field split ?_ (Value.fails_false_iff.mpr ⟨fails, he⟩)
      intro earlier hmem e' hfail
      exact first earlier hmem e' (Value.fails_false_iff.mp hfail).1

/-- A refusal for want of a binding is about an argument that is looked at. -/
theorem Refuses.passesUnbound {require : Bool} {argument name : String}
    (h : ctx.Refuses names require (.unboundVariable argument name)) :
    ctx.PassesUnbound names argument name := by
  cases h with
  | @occurrence op fieldName before after o _ operation kind field split _ fails =>
      obtain ⟨hargument, hvalue, hbinding⟩ := Occurrence.Fails.eq_variable fails
      have hmem : o ∈ op.occurrences fieldName names.eraseDups := by
        rw [split]
        exact List.mem_append_right before List.mem_cons_self
      have hinspects : op.Inspects fieldName names o :=
        Operation.inspects_eraseDups.mp (Operation.mem_occurrences.mp hmem)
      exact ⟨hbinding, op, fieldName, o, operation, kind, field, hinspects, hargument, hvalue⟩

/-- An answer that is given with bindings required is given without. -/
theorem answer_false_of_answer_true {p : ProvidedFields} (h : ctx.answer true names = .ok p) :
    ctx.answer false names = .ok p := by
  obtain ⟨op, fieldName, hop, hk, hf⟩ := exists_of_answer_eq_ok h
  obtain ⟨hselected, hpass, hp⟩ := (Inspection.resolve_eq_ok_iff hop hk hf).mp h
  refine (Inspection.resolve_eq_ok_iff hop hk hf).mpr ⟨hselected, ?_, hp⟩
  intro o ho e hfail
  exact hpass o ho e (Value.fails_false_iff.mp hfail).1

/-- Of two resolutions of a context, the one that requires bindings refines the other. -/
structure StrictRefines (ctx : Context) (names : List String) : Prop where
  /-- What it answers, the other answers too, with the arguments in the same order. -/
  answered : ∀ p, ctx.answer true names = .ok p → ctx.answer false names = .ok p
  /-- If it fails, but not for want of a binding, the other fails with the same error. -/
  refused : ∀ e, ctx.answer true names = .error e → ¬e.IsUnbound →
    ctx.answer false names = .error e
  /-- If it fails for want of a binding, it names an argument that passes such a variable. -/
  unbound : ∀ argument name, ctx.answer true names = .error (.unboundVariable argument name) →
    ctx.PassesUnbound names argument name
  /-- If no argument that is looked at passes such a variable, the two agree. -/
  agree : (∀ argument name, ¬ctx.PassesUnbound names argument name) →
    ctx.answer true names = ctx.answer false names

end Context

/-- Requiring bindings adds refusals for want of a binding and changes nothing else. -/
theorem strict_refines (ctx : Context) (names : List String) : ctx.StrictRefines names := by
  have hrefused : ∀ e, ctx.answer true names = .error e → ¬e.IsUnbound →
      ctx.answer false names = .error e := by
    intro e h he
    exact (resolve_eq_error_iff ctx names false e).mpr
      (((resolve_eq_error_iff ctx names true e).mp h).lenient he)
  have hunbound : ∀ argument name,
      ctx.answer true names = .error (.unboundVariable argument name) →
        ctx.PassesUnbound names argument name := by
    intro argument name h
    exact ((resolve_eq_error_iff ctx names true _).mp h).passesUnbound
  refine ⟨fun _ => Context.answer_false_of_answer_true, hrefused, hunbound, ?_⟩
  intro hbound
  cases h : ctx.answer true names with
  | ok p => exact (Context.answer_false_of_answer_true h).symm
  | error e =>
      have he : ¬e.IsUnbound := by
        rintro ⟨argument, name, rfl⟩
        exact hbound argument name (hunbound argument name h)
      exact (hrefused e h he).symm

end MutationInput
