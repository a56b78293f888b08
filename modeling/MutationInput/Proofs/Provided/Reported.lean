import MutationInput.Proofs.Provided.Gather

/-!
# The events of a run

An argument that is passed and contributes nothing has an event, and `Value.Skips` says which. An
inspection that does not fail reports this event or, if the argument contributes, nothing. So a run
that comes through some steps reports their events in order (`Inspection.run_append_of_passes`),
and at a step that fails it ends without one (`Inspection.run_cons_of_fails`).
-/
namespace MutationInput

/-! ## The event of one argument -/

namespace Event

/-- Whether an event announces a selection. -/
def isInspecting : Event → Bool
  | .inspecting .. => true
  | _ => false

/-- Whether an event tells of an argument that is requested and not passed. -/
def isAbsence : Event → Bool
  | .argumentAbsent .. => true
  | _ => false

end Event

namespace Value

/-- The event of an argument that is passed and contributes nothing: it passes a variable without
binding, or a value without fields. -/
inductive Skips (bindings : Variables) (argument : String) : Value → Event → Prop where
  | unbound {name : String} (binding : bindings.get? name = none) :
      Skips bindings argument (.variable name) (.unboundSkipped argument name)
  | bound {name : String} {b : Binding} (binding : bindings.get? name = some b)
      (not_mapping : ∀ entries, b ≠ .mapping entries) :
      Skips bindings argument (.variable name) (.kindSkipped argument b.kind)
  | literal {v : Value} (not_object : ∀ fields, v ≠ .object fields)
      (not_variable : ∀ name, v ≠ .variable name) :
      Skips bindings argument v (.kindSkipped argument v.kind)

/-- The event of an argument that is passed, if it contributes nothing. -/
def skipped? (bindings : Variables) (argument : String) : Value → Option Event
  | .object _ => none
  | .variable name =>
    match bindings.get? name with
    | none => some (.unboundSkipped argument name)
    | some (.mapping _) => none
    | some b => some (.kindSkipped argument b.kind)
  | v => some (.kindSkipped argument v.kind)

variable {bindings : Variables} {argument : String} {v : Value}

theorem skipped?_plain {name : String} {b : Binding} (hb : bindings.get? name = some b)
    (hm : ∀ entries, b ≠ .mapping entries) :
    (Value.variable name).skipped? bindings argument = some (.kindSkipped argument b.kind) := by
  cases b with
  | mapping entries => exact absurd rfl (hm entries)
  | _ => simp [skipped?, hb]

theorem skipped?_other (ho : ∀ fields, v ≠ .object fields) (hv : ∀ name, v ≠ .variable name) :
    v.skipped? bindings argument = some (.kindSkipped argument v.kind) := by
  cases v with
  | object fields => exact absurd rfl (ho fields)
  | «variable» name => exact absurd rfl (hv name)
  | _ => rfl

/-- An argument has an event if it does not contribute, and then one that tells of it. -/
theorem skipped?_cases (bindings : Variables) (argument : String) (v : Value) :
    (v.contributes bindings = true ∧ v.skipped? bindings argument = none) ∨
      (v.contributes bindings = false ∧
        ∃ e, v.skipped? bindings argument = some e ∧ v.Skips bindings argument e) := by
  cases v.meets bindings with
  | object fields => exact .inl ⟨rfl, rfl⟩
  | unbound hb => exact .inr ⟨by simp [contributes, hb], _, by simp [skipped?, hb], .unbound hb⟩
  | mapping hb => exact .inl ⟨by simp [contributes, hb], by simp [skipped?, hb]⟩
  | plain hb hm =>
      refine .inr ⟨?_, _, skipped?_plain hb hm, .bound hb hm⟩
      rw [← isSome_provided?, provided?_plain hb hm, Option.isSome_none]
  | other ho hv =>
      refine .inr ⟨?_, _, skipped?_other ho hv, .literal ho hv⟩
      rw [← isSome_provided?, provided?_other ho hv, Option.isSome_none]

namespace Skips

variable {e : Event}

theorem level_eq (h : v.Skips bindings argument e) : e.level = .debug := by
  cases h <;> rfl

theorem isInspecting_eq (h : v.Skips bindings argument e) : e.isInspecting = false := by
  cases h <;> rfl

theorem isAbsence_eq (h : v.Skips bindings argument e) : e.isAbsence = false := by
  cases h <;> rfl

theorem ne_noBinding (h : v.Skips bindings argument e) (name : String) : e ≠ .noBinding name := by
  cases h <;> simp

end Skips

/-- The event of an argument tells that it contributes nothing. -/
theorem skips_of_skipped? {e : Event} (h : v.skipped? bindings argument = some e) :
    v.Skips bindings argument e := by
  rcases v.skipped?_cases bindings argument with ⟨-, hnone⟩ | ⟨-, e', he', hskips⟩
  · cases hnone.symm.trans h
  · cases he'.symm.trans h
    exact hskips

end Value

namespace Inspection

variable {r : Inspection} {bindings : Variables} {argument : String} {v : Value}

/-- An inspection that does not fail reports an argument that contributes nothing, and no other. The
case of the listing in which a variable has no binding is not reached, as the binding is looked for
before the fields are. -/
theorem events_inspect (h : ∀ e, ¬v.Fails bindings r.requested r.requireBound argument e) :
    (r.inspect bindings argument v).events = (v.skipped? bindings argument).toList := by
  cases v.meets bindings with
  | object fields => rfl
  | unbound hb =>
      have hr : r.requireBound = false := by
        by_contra hr
        exact h _ (.unbound hb (Bool.eq_true_of_not_eq_false hr))
      simp [inspect_unbound hb, hr, Value.skipped?, hb]
  | mapping hb =>
      simp [inspect_bound hb, Binding.entries?, Value.skipped?, hb, Logged.silent]
  | plain hb hm =>
      have hr : r.requested = [] := by
        by_contra hr
        exact h _ (.bound hr hb hm)
      simp [inspect_bound hb, Binding.entries?_eq_none hm, hr, Value.skipped?_plain hb hm]
  | other ho hv =>
      have hr : r.requested = [] := by
        by_contra hr
        exact h _ (.literal hr ho hv)
      simp [inspect_other ho hv, hr, Value.skipped?_other ho hv]

/-- An inspection that fails reports nothing. -/
theorem events_inspect_of_fails {e : ProvidedError}
    (h : v.Fails bindings r.requested r.requireBound argument e) :
    (r.inspect bindings argument v).events = [] := by
  cases h with
  | unbound hb required => rw [inspect_unbound hb, if_pos required]; rfl
  | literal requested ho hv =>
      rw [inspect_other ho hv, if_neg (by simpa using requested)]
      rfl
  | bound requested hb hm =>
      simp only [inspect_bound hb, Binding.entries?_eq_none hm]
      rw [if_neg (by simpa using requested)]
      rfl

/-! ## The events of a run -/

/-- The event of a step that does not fail, if it has one. -/
def Step.event? (bindings : Variables) (fieldName : String) : Step → Option Event
  | .visit f => some (.inspecting f.selectedName fieldName f.location)
  | .absent name => some (.argumentAbsent name fieldName)
  | .argument name v => v.skipped? bindings name

/-- A step does not fail. -/
def Step.Passes (r : Inspection) (bindings : Variables) : Step → Prop
  | .argument name v => ∀ e, ¬v.Fails bindings r.requested r.requireBound name e
  | _ => True

/-- A step that passes reports its event, and the run goes on. -/
theorem run_cons_of_passes {x : Step} (hx : x.Passes r bindings) (fieldName : String)
    (rest : List Step) (p : ProvidedFields) :
    ∃ q, r.run bindings fieldName (x :: rest) p =
      (r.run bindings fieldName rest q).report (x.event? bindings fieldName).toList := by
  cases x with
  | visit f => exact ⟨p, rfl⟩
  | absent name => exact ⟨p, rfl⟩
  | argument name v =>
      have hevents := events_inspect hx
      have hresult := result_inspect_of_not_fails hx
      simp only [run, hresult, Step.event?, ← hevents]
      cases v.provided? bindings with
      | none => exact ⟨p, rfl⟩
      | some names => exact ⟨p.insert name names, rfl⟩

/-- Steps that pass report their events in order, and the run goes on. -/
theorem run_append_of_passes {steps : List Step} (h : ∀ x ∈ steps, x.Passes r bindings)
    (fieldName : String) (rest : List Step) (p : ProvidedFields) :
    ∃ q, r.run bindings fieldName (steps ++ rest) p =
      (r.run bindings fieldName rest q).report
        (steps.filterMap (Step.event? bindings fieldName)) := by
  induction steps generalizing p with
  | nil => exact ⟨p, rfl⟩
  | cons x steps ih =>
      rw [List.forall_mem_cons] at h
      obtain ⟨q, hq⟩ := run_cons_of_passes h.1 fieldName (steps ++ rest) p
      obtain ⟨q', hq'⟩ := ih h.2 q
      refine ⟨q', ?_⟩
      rw [List.cons_append, hq, hq']
      cases hx : x.event? bindings fieldName with
      | none => rw [List.filterMap_cons_none hx]; rfl
      | some e => rw [List.filterMap_cons_some hx]; rfl

/-- A step that fails ends the run without an event. -/
theorem run_cons_of_fails {e : ProvidedError}
    (h : v.Fails bindings r.requested r.requireBound argument e) (fieldName : String)
    (rest : List Step) (p : ProvidedFields) :
    r.run bindings fieldName (.argument argument v :: rest) p = .silent (.error e) := by
  have hresult := result_inspect_eq_error_iff.mpr h
  simp only [run, hresult, events_inspect_of_fails h]
  rfl

end Inspection

end MutationInput
