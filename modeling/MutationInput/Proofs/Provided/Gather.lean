import MutationInput.Proofs.Provided.Occurrence

/-!
# A resolution as a pass over occurrences

`Inspection.gather` is the pass of a resolution over the occurrences that are inspected, without
the log. It fails at the first occurrence that fails (`gather_eq_error_iff`), and otherwise inserts
what each occurrence provides (`gather_eq_ok_iff`). Two passes agree if their inspections do, one
by one (`gather_congr`). `result_resolve` puts the checks in front of the pass.
-/
namespace MutationInput

/-- The error with which an occurrence stops a resolution. -/
def Occurrence.Fails (bindings : Variables) (names : List String) (require : Bool)
    (o : Occurrence) (e : ProvidedError) : Prop :=
  o.value.Fails bindings names require o.argument e

/-- The entry that an occurrence adds to the provided fields. -/
def Occurrence.contribution? (bindings : Variables) (o : Occurrence) :
    Option (String × List String) :=
  (o.value.provided? bindings).map fun names => (o.argument, names)

namespace Inspection

/-- What was provided after one more occurrence is looked at. -/
def absorb (r : Inspection) (bindings : Variables) (p : ProvidedFields) (o : Occurrence) :
    Except ProvidedError ProvidedFields :=
  match (r.inspect bindings o.argument o.value).result with
  | .error e => .error e
  | .ok none => .ok p
  | .ok (some names) => .ok (p.insert o.argument names)

/-- Takes occurrences in order, from what was provided before them, up to the first error. -/
def gather (r : Inspection) (bindings : Variables) (os : List Occurrence) (p : ProvidedFields) :
    Except ProvidedError ProvidedFields :=
  os.foldlM (r.absorb bindings) p

/-- The occurrence in a selection that a step looks at. -/
def Step.occurrence? (s : Field) : Step → Option Occurrence
  | .argument name v => some ⟨s, name, v⟩
  | _ => none

variable {r : Inspection} {bindings : Variables}

@[simp] theorem gather_nil (p : ProvidedFields) : r.gather bindings [] p = .ok p := rfl

theorem gather_cons (o : Occurrence) (rest : List Occurrence) (p : ProvidedFields) :
    r.gather bindings (o :: rest) p = r.absorb bindings p o >>= r.gather bindings rest :=
  List.foldlM_cons

theorem gather_append (xs ys : List Occurrence) (p : ProvidedFields) :
    r.gather bindings (xs ++ ys) p = r.gather bindings xs p >>= r.gather bindings ys :=
  List.foldlM_append

/-! ## From steps to occurrences -/

/-- A passed argument acts on a run as its occurrence does on the pass. -/
theorem result_run_argument (fieldName : String) (o : Occurrence) (rest : List Step)
    (p : ProvidedFields) :
    (r.run bindings fieldName (.argument o.argument o.value :: rest) p).result =
      r.absorb bindings p o >>= fun q => (r.run bindings fieldName rest q).result := by
  simp only [run, absorb]
  rcases (r.inspect bindings o.argument o.value).result with e | _ | names <;> rfl

theorem filterMap_argumentSteps (r : Inspection) (s : Field) :
    (r.argumentSteps s).filterMap (Step.occurrence? s) = s.occurrences r.requested := by
  by_cases hr : r.requested = []
  · simp only [argumentSteps, hr, List.isEmpty_nil, if_true, Field.occurrences_all,
      List.filterMap_map]
    exact congrFun List.filterMap_eq_map s.arguments.entries
  · have he : r.requested.isEmpty = false := by simpa using hr
    simp only [argumentSteps, he, Bool.false_eq_true, if_false, List.filterMap_map,
      Field.occurrences_requested s hr]
    refine List.filterMap_congr ?_
    intro name _
    simp only [Function.comp_apply]
    cases s.argument? name <;> rfl

/-- Steps inside a selection act on the steps behind them through their occurrences. -/
theorem result_run_append (fieldName : String) (s : Field) (steps rest : List Step)
    (p : ProvidedFields) :
    (r.run bindings fieldName (steps ++ rest) p).result =
      r.gather bindings (steps.filterMap (Step.occurrence? s)) p >>= fun q =>
        (r.run bindings fieldName rest q).result := by
  induction steps generalizing p with
  | nil => rfl
  | cons x steps ih =>
      cases x with
      | visit f => exact ih p
      | absent name => exact ih p
      | argument name v =>
          have hstep : (Step.argument name v :: steps).filterMap (Step.occurrence? s) =
              ⟨s, name, v⟩ :: steps.filterMap (Step.occurrence? s) := List.filterMap_cons_some rfl
          rw [hstep, gather_cons, bind_assoc, List.cons_append]
          rw [result_run_argument fieldName ⟨s, name, v⟩]
          exact congrArg _ (funext ih)

/-- A run is the pass over the occurrences in its selections. -/
theorem result_run (fieldName : String) (fs : List Field) (p : ProvidedFields) :
    (r.run bindings fieldName (r.steps fs) p).result =
      r.gather bindings (fs.flatMap fun s => s.occurrences r.requested) p := by
  induction fs generalizing p with
  | nil => rfl
  | cons s fs ih =>
      have hsteps : r.steps (s :: fs) = .visit s :: (r.argumentSteps s ++ r.steps fs) := by
        simp [steps]
      calc (r.run bindings fieldName (r.steps (s :: fs)) p).result
          = (r.run bindings fieldName (r.argumentSteps s ++ r.steps fs) p).result := by
            rw [hsteps]
            rfl
        _ = r.gather bindings (s.occurrences r.requested) p >>= fun q =>
              (r.run bindings fieldName (r.steps fs) q).result := by
            rw [result_run_append fieldName s, filterMap_argumentSteps]
        _ = r.gather bindings ((s :: fs).flatMap fun s => s.occurrences r.requested) p := by
            rw [List.flatMap_cons, gather_append]
            exact congrArg _ (funext ih)

/-! ## How a pass ends -/

theorem absorb_eq_error_iff {p : ProvidedFields} {o : Occurrence} {e : ProvidedError} :
    r.absorb bindings p o = .error e ↔ o.Fails bindings r.requested r.requireBound e := by
  rw [Occurrence.Fails, ← result_inspect_eq_error_iff]
  simp only [absorb]
  split <;> simp_all

/-- A pass fails with the error of the first occurrence that fails. -/
theorem gather_eq_error_iff {os : List Occurrence} {p : ProvidedFields} {e : ProvidedError} :
    r.gather bindings os p = .error e ↔
      ∃ before o after, os = before ++ o :: after ∧
        (∀ o' ∈ before, ∀ e', ¬o'.Fails bindings r.requested r.requireBound e') ∧
        o.Fails bindings r.requested r.requireBound e := by
  -- What fails does not depend on the fields provided so far, so `p` is arbitrary.
  induction os generalizing p with
  | nil => simp
  | cons x rest ih =>
      rw [gather_cons]
      cases hx : r.absorb bindings p x with
      | error e' =>
          have hfail := absorb_eq_error_iff.mp hx
          constructor
          · intro h
            cases h
            exact ⟨[], x, rest, rfl, by simp, hfail⟩
          · rintro ⟨before, o, after, hos, hbefore, ho⟩
            cases before with
            | nil =>
                obtain ⟨rfl, rfl⟩ := List.cons.inj hos
                cases hx.symm.trans (absorb_eq_error_iff.mpr ho)
                rfl
            | cons y before =>
                obtain ⟨rfl, -⟩ := List.cons.inj hos
                exact absurd hfail (hbefore x (by simp) e')
      | ok q =>
          have hpass : ∀ e', ¬x.Fails bindings r.requested r.requireBound e' := by
            intro e' hfail
            rw [absorb_eq_error_iff.mpr hfail] at hx
            cases hx
          change r.gather bindings rest q = .error e ↔ _
          rw [ih]
          constructor
          · rintro ⟨before, o, after, rfl, hbefore, ho⟩
            exact ⟨x :: before, o, after, rfl, List.forall_mem_cons.mpr ⟨hpass, hbefore⟩, ho⟩
          · rintro ⟨before, o, after, hos, hbefore, ho⟩
            cases before with
            | nil =>
                obtain ⟨rfl, -⟩ := List.cons.inj hos
                exact absurd ho (hpass e)
            | cons y before =>
                obtain ⟨rfl, rfl⟩ := List.cons.inj hos
                exact ⟨before, o, after, rfl, (List.forall_mem_cons.mp hbefore).2, ho⟩

/-- An occurrence that does not fail adds its entry if it has one. -/
theorem absorb_eq_ok {o : Occurrence}
    (h : ∀ e, ¬o.Fails bindings r.requested r.requireBound e) (p : ProvidedFields) :
    r.absorb bindings p o = .ok (match o.contribution? bindings with
      | none => p
      | some e => p.insert e.1 e.2) := by
  have hi : (r.inspect bindings o.argument o.value).result = .ok (o.value.provided? bindings) :=
    result_inspect_of_not_fails h
  simp only [absorb, hi, Occurrence.contribution?]
  cases o.value.provided? bindings <;> rfl

/-- A pass succeeds if no occurrence fails, and then it has inserted the entries in order. -/
theorem gather_eq_ok_iff {os : List Occurrence} {p q : ProvidedFields} :
    r.gather bindings os p = .ok q ↔
      (∀ o ∈ os, ∀ e, ¬o.Fails bindings r.requested r.requireBound e) ∧
        q = (os.filterMap (Occurrence.contribution? bindings)).foldl
          (fun d e => d.insert e.1 e.2) p := by
  induction os generalizing p with
  | nil => simp [eq_comm]
  | cons x rest ih =>
      rw [gather_cons, List.forall_mem_cons]
      by_cases hx : ∀ e, ¬x.Fails bindings r.requested r.requireBound e
      · rw [absorb_eq_ok hx]
        change r.gather bindings rest _ = .ok q ↔ _
        rw [ih]
        cases he : x.contribution? bindings with
        | none => simp [List.filterMap_cons_none he, hx]
        | some e => simp [List.filterMap_cons_some he, hx]
      · constructor
        · intro h
          obtain ⟨e, hfail⟩ := not_forall_not.mp hx
          rw [absorb_eq_error_iff.mpr hfail] at h
          cases h
        · intro h
          exact absurd h.1.1 hx

/-- Two passes agree if they look at the same arguments and find the same. -/
theorem gather_congr {bindings' : Variables} {os os' : List Occurrence}
    (h : List.Forall₂ (fun o o' => o.argument = o'.argument ∧
      (r.inspect bindings o.argument o.value).result =
        (r.inspect bindings' o'.argument o'.value).result) os os') (p : ProvidedFields) :
    r.gather bindings os p = r.gather bindings' os' p := by
  induction h generalizing p with
  | nil => rfl
  | @cons x y _ _ hx _ ih =>
      have habsorb : r.absorb bindings p x = r.absorb bindings' p y := by
        simp only [absorb]
        rw [hx.2, hx.1]
      rw [gather_cons, gather_cons, habsorb]
      exact congrArg _ (funext ih)

/-! ## The checks before the pass -/

theorem resolve_no_operation {ctx : Context} (hop : ctx.operation = none) :
    r.resolve ctx = .silent (.error (.missingContext .operation)) := by
  simp only [resolve, hop]

/-- Only mutations are resolved, whether the field is known or not. -/
theorem resolve_not_mutation {ctx : Context} {op : Operation} (hop : ctx.operation = some op)
    (hk : op.kind ≠ .mutation) : r.resolve ctx = .silent (.error (.notAMutation op.kind)) := by
  simp only [resolve, hop, if_pos hk]

theorem resolve_no_field_name {ctx : Context} {op : Operation} (hop : ctx.operation = some op)
    (hk : op.kind = .mutation) (hf : ctx.fieldName = none) :
    r.resolve ctx = .silent (.error (.missingContext .fieldName)) := by
  have hkind : ¬op.kind ≠ .mutation := fun h => h hk
  simp only [resolve, hop, hf, if_neg hkind]

/-- For a mutation and a known field, a resolution is the run through the selections of the field,
if there is one. -/
theorem resolve_mutation {ctx : Context} {op : Operation} {fieldName : String}
    (hop : ctx.operation = some op) (hk : op.kind = .mutation)
    (hf : ctx.fieldName = some fieldName) :
    r.resolve ctx =
      if op.selected fieldName = [] then .silent (.error (.fieldNotFound fieldName))
      else r.run ctx.bindings fieldName (r.steps (op.selected fieldName)) Dict.empty := by
  have hkind : ¬op.kind ≠ .mutation := fun h => h hk
  simp only [resolve, hop, hf, if_neg hkind, Operation.matching_eq_selected, List.isEmpty_iff]

theorem result_resolve_no_operation {ctx : Context} (hop : ctx.operation = none) :
    (r.resolve ctx).result = .error (.missingContext .operation) := by
  rw [resolve_no_operation hop]
  rfl

theorem result_resolve_not_mutation {ctx : Context} {op : Operation}
    (hop : ctx.operation = some op) (hk : op.kind ≠ .mutation) :
    (r.resolve ctx).result = .error (.notAMutation op.kind) := by
  rw [resolve_not_mutation hop hk]
  rfl

theorem result_resolve_no_field_name {ctx : Context} {op : Operation}
    (hop : ctx.operation = some op) (hk : op.kind = .mutation) (hf : ctx.fieldName = none) :
    (r.resolve ctx).result = .error (.missingContext .fieldName) := by
  rw [resolve_no_field_name hop hk hf]
  rfl

/-- For a mutation and a known field, a resolution is the pass over the occurrences of the field,
if there is a selection of it. -/
theorem result_resolve {ctx : Context} {op : Operation} {fieldName : String}
    (hop : ctx.operation = some op) (hk : op.kind = .mutation)
    (hf : ctx.fieldName = some fieldName) :
    (r.resolve ctx).result =
      if op.selected fieldName = [] then .error (.fieldNotFound fieldName)
      else r.gather ctx.bindings (op.occurrences fieldName r.requested) Dict.empty := by
  rw [resolve_mutation hop hk hf]
  split
  · rfl
  · exact result_run fieldName (op.selected fieldName) Dict.empty

/-- A resolution succeeds if the field is selected and no occurrence fails, and its result is built
from the entries of the occurrences. -/
theorem resolve_eq_ok_iff {ctx : Context} {op : Operation} {fieldName : String}
    {p : ProvidedFields} (hop : ctx.operation = some op) (hk : op.kind = .mutation)
    (hf : ctx.fieldName = some fieldName) :
    (r.resolve ctx).result = .ok p ↔
      op.selected fieldName ≠ [] ∧
        (∀ o ∈ op.occurrences fieldName r.requested,
          ∀ e, ¬o.Fails ctx.bindings r.requested r.requireBound e) ∧
        p = Dict.ofList ((op.occurrences fieldName r.requested).filterMap
          (Occurrence.contribution? ctx.bindings)) := by
  rw [result_resolve hop hk hf]
  by_cases hs : op.selected fieldName = []
  · simp [hs]
  · rw [if_neg hs, gather_eq_ok_iff]
    simp only [ne_eq, hs, not_false_eq_true, true_and]
    rfl

/-- Two resolutions have the same result if they look at the same arguments and find the same. -/
theorem result_resolve_congr {ctx ctx' : Context} {op op' : Operation}
    (hop : ctx.operation = some op) (hop' : ctx'.operation = some op')
    (hkind : op.kind = op'.kind) (hfield : ctx.fieldName = ctx'.fieldName)
    (hselected : ∀ fieldName, (op.selected fieldName).length = (op'.selected fieldName).length)
    (hoccurrences : ∀ fieldName, List.Forall₂ (fun o o' => o.argument = o'.argument ∧
      (r.inspect ctx.bindings o.argument o.value).result =
        (r.inspect ctx'.bindings o'.argument o'.value).result)
      (op.occurrences fieldName r.requested) (op'.occurrences fieldName r.requested)) :
    (r.resolve ctx).result = (r.resolve ctx').result := by
  by_cases hk : op.kind = .mutation
  · have hk' : op'.kind = .mutation := hkind ▸ hk
    cases hf : ctx.fieldName with
    | none =>
        have hf' : ctx'.fieldName = none := hfield ▸ hf
        rw [result_resolve_no_field_name hop hk hf, result_resolve_no_field_name hop' hk' hf']
    | some fieldName =>
        have hf' : ctx'.fieldName = some fieldName := hfield ▸ hf
        have hnone : op.selected fieldName = [] ↔ op'.selected fieldName = [] := by
          rw [← List.length_eq_zero_iff, hselected, List.length_eq_zero_iff]
        rw [result_resolve hop hk hf, result_resolve hop' hk' hf']
        simp only [hnone, gather_congr (hoccurrences fieldName)]
  · have hk' : op'.kind ≠ .mutation := hkind ▸ hk
    rw [result_resolve_not_mutation hop hk, result_resolve_not_mutation hop' hk', hkind]

/-! ## What is requested -/

/-- Further requests add the names that are new. -/
theorem requested_request {asked : List String} (hr : r.requested = asked.eraseDups)
    (names : List String) : (r.request names).requested = (asked ++ names).eraseDups := by
  simp only [request, hr]
  induction names using List.reverseRecOn with
  | nil => simp
  | append_singleton names n ih =>
      rw [List.foldl_append, ih, ← List.append_assoc, Dict.eraseDups_concat]
      simp

/-- The requested names stand in the order of the first request of each. -/
theorem requested_all_request (names : List String) :
    (all.request names).requested = names.eraseDups := by
  have hall : all.requested = ([] : List String).eraseDups := rfl
  exact requested_request hall names

end Inspection
end MutationInput
