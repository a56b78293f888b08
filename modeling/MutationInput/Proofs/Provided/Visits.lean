import MutationInput.Proofs.Provided.Failures
import MutationInput.Proofs.Provided.Reported

/-!
# How far a resolution comes

A `Visit` is a selection of the field with the arguments that are sought in it. `Reaches` cuts the
visits of a resolution off in front of the first argument that fails, and a run reports the events
of the visits up to there: `Inspection.exists_reaches_run`.
-/
namespace MutationInput

/-! ## Visits -/

/-- The arguments that are sought in a selection, each with its value if it is passed: the requested
ones in the order of the request, or all that are passed, as they are written, if none is
requested. -/
def Field.sought (s : Field) (requested : List String) : List (String × Option Value) :=
  if requested = [] then s.arguments.entries.map fun e => (e.1, some e.2)
  else requested.map fun name => (name, s.argument? name)

/-- A selection of the field with the arguments that are sought in it. -/
structure Visit where
  selection : Field
  sought : List (String × Option Value)

/-- The visits of a resolution: one for each selection of the field, in document order. -/
def Operation.visits (op : Operation) (fieldName : String) (requested : List String) :
    List Visit :=
  (op.selected fieldName).map fun s => ⟨s, s.sought requested⟩

namespace Visit

/-- The arguments that are passed. -/
def occurrences (v : Visit) : List Occurrence :=
  v.sought.filterMap fun a => a.2.map fun x => ⟨v.selection, a.1, x⟩

/-- The names of the arguments that are not passed. -/
def absent (v : Visit) : List String :=
  (v.sought.filter fun a => a.2.isNone).map Prod.fst

/-- The event that announces a visit. -/
def announcement (fieldName : String) (v : Visit) : Event :=
  .inspecting v.selection.selectedName fieldName v.selection.location

/-- The event of an argument that is sought, if it has one. -/
def note? (bindings : Variables) (fieldName : String) : String × Option Value → Option Event
  | (name, none) => some (.argumentAbsent name fieldName)
  | (name, some x) => x.skipped? bindings name

/-- The events of a visit: its announcement, and those of the arguments in the order in which they
are sought. -/
def events (bindings : Variables) (fieldName : String) (v : Visit) : List Event :=
  v.announcement fieldName :: v.sought.filterMap (note? bindings fieldName)

/-- The step for an argument that is sought. -/
def step : String × Option Value → Inspection.Step
  | (name, none) => .absent name
  | (name, some x) => .argument name x

/-- The steps of a visit. -/
def steps (v : Visit) : List Inspection.Step :=
  .visit v.selection :: v.sought.map step

theorem argumentSteps_eq (r : Inspection) (s : Field) :
    r.argumentSteps s = (s.sought r.requested).map step := by
  by_cases hr : r.requested = []
  · simp [Inspection.argumentSteps, Field.sought, hr, step]
  · simp only [Inspection.argumentSteps, Field.sought, List.isEmpty_iff, if_neg hr, List.map_map]
    refine List.map_congr_left ?_
    intro name _
    simp only [Function.comp_apply]
    cases s.argument? name <;> rfl

/-- The steps of a resolution are those of its visits. -/
theorem steps_eq_flatMap (r : Inspection) (op : Operation) (fieldName : String) :
    r.steps (op.selected fieldName) =
      (op.visits fieldName r.requested).flatMap steps := by
  simp only [Inspection.steps, Operation.visits, List.flatMap_map, steps, argumentSteps_eq]

/-- The visits pass the occurrences that are inspected. -/
theorem flatMap_occurrences (op : Operation) (fieldName : String) (requested : List String) :
    (op.visits fieldName requested).flatMap occurrences = op.occurrences fieldName requested := by
  simp only [Operation.visits, Operation.occurrences, List.flatMap_map]
  refine List.flatMap_congr ?_
  intro s _
  by_cases hr : requested = []
  · subst hr
    simp [occurrences, Field.sought, Field.occurrences_all, List.filterMap_map]
  · simp [occurrences, Field.sought, Field.occurrences_requested s hr, hr, List.filterMap_map]

/-- The events of the steps are those of the visit. -/
theorem filterMap_event?_steps (bindings : Variables) (fieldName : String) (v : Visit) :
    v.steps.filterMap (Inspection.Step.event? bindings fieldName) =
      v.events bindings fieldName := by
  have hnote : Inspection.Step.event? bindings fieldName ∘ step = note? bindings fieldName := by
    funext a
    obtain ⟨name, _ | x⟩ := a <;> rfl
  simp only [steps, List.filterMap_cons, List.filterMap_map, hnote]
  rfl

/-! ## How far a resolution comes -/

/-- No argument of a visit fails. -/
def Passes (bindings : Variables) (names : List String) (require : Bool) (v : Visit) : Prop :=
  ∀ o ∈ v.occurrences, ∀ e, ¬o.Fails bindings names require e

variable {bindings : Variables} {names : List String} {require : Bool}

theorem passes_nil (s : Field) : Passes bindings names require ⟨s, []⟩ := by
  simp [Passes, occurrences]

theorem passes_cons_none {s : Field} {name : String} {sought : List (String × Option Value)} :
    Passes bindings names require ⟨s, (name, none) :: sought⟩ ↔
      Passes bindings names require ⟨s, sought⟩ := by
  simp [Passes, occurrences]

theorem passes_cons_some {s : Field} {name : String} {x : Value}
    {sought : List (String × Option Value)} :
    Passes bindings names require ⟨s, (name, some x) :: sought⟩ ↔
      (∀ e, ¬x.Fails bindings names require name e) ∧
        Passes bindings names require ⟨s, sought⟩ := by
  simp [Passes, occurrences, Occurrence.Fails]

theorem passes_eraseDups {v : Visit} :
    v.Passes bindings names.eraseDups require ↔ v.Passes bindings names require := by
  simp only [Passes, Occurrence.fails_eraseDups]

/-- If a visit does not pass, one of its arguments is the first that fails. -/
theorem exists_first_of_not_passes {s : Field} {sought : List (String × Option Value)}
    (h : ¬Passes bindings names require ⟨s, sought⟩) :
    ∃ before name x after e, sought = before ++ (name, some x) :: after ∧
      Passes bindings names require ⟨s, before⟩ ∧ x.Fails bindings names require name e := by
  induction sought with
  | nil => exact absurd (passes_nil s) h
  | cons a sought ih =>
      obtain ⟨name, _ | x⟩ := a
      · rw [passes_cons_none] at h
        obtain ⟨before, name', x', after, e, rfl, hbefore, he⟩ := ih h
        exact ⟨(name, none) :: before, name', x', after, e, rfl,
          passes_cons_none.mpr hbefore, he⟩
      · by_cases hx : ∀ e, ¬x.Fails bindings names require name e
        · have hs : ¬Passes bindings names require ⟨s, sought⟩ :=
            fun hs => h (passes_cons_some.mpr ⟨hx, hs⟩)
          obtain ⟨before, name', x', after, e, rfl, hbefore, he⟩ := ih hs
          exact ⟨(name, some x) :: before, name', x', after, e, rfl,
            passes_cons_some.mpr ⟨hx, hbefore⟩, he⟩
        · obtain ⟨e, he⟩ := not_forall_not.mp hx
          exact ⟨[], name, x, sought, e, rfl, passes_nil s, he⟩

theorem Passes.steps {r : Inspection} {v : Visit}
    (h : v.Passes bindings r.requested r.requireBound) :
    ∀ x ∈ v.steps, x.Passes r bindings := by
  intro x hx
  cases x with
  | visit f => trivial
  | absent name => trivial
  | argument name x =>
      intro e he
      simp only [Visit.steps, List.mem_cons, reduceCtorEq, false_or, List.mem_map] at hx
      obtain ⟨⟨name', _ | x'⟩, ha, hstep⟩ := hx
      · cases hstep
      · cases hstep
        refine h ⟨v.selection, name, x⟩ ?_ e he
        exact List.mem_filterMap.mpr ⟨(name, some x), ha, rfl⟩

end Visit

/-- How far a resolution with a result comes through its visits: behind a visit in which nothing
fails it goes on, and in a visit in which an argument fails it comes to what was sought before. -/
inductive Reaches (bindings : Variables) (names : List String) (require : Bool) :
    List Visit → Except ProvidedError ProvidedFields → List Visit → Prop where
  | finished (p : ProvidedFields) : Reaches bindings names require [] (.ok p) []
  | visited {v : Visit} {visits reached : List Visit}
      {result : Except ProvidedError ProvidedFields} (passes : v.Passes bindings names require)
      (further : Reaches bindings names require visits result reached) :
      Reaches bindings names require (v :: visits) result (v :: reached)
  | stopped {s : Field} {before after : List (String × Option Value)} {argument : String}
      {x : Value} {e : ProvidedError} (visits : List Visit)
      (passes : Visit.Passes bindings names require ⟨s, before⟩)
      (fails : x.Fails bindings names require argument e) :
      Reaches bindings names require (⟨s, before ++ (argument, some x) :: after⟩ :: visits)
        (.error e) [⟨s, before⟩]

namespace Reaches

variable {bindings : Variables} {names : List String} {require : Bool} {visits reached : List Visit}
  {result : Except ProvidedError ProvidedFields}

/-- A resolution that succeeds comes through all visits. -/
theorem eq_of_ok {p : ProvidedFields}
    (h : Reaches bindings names require visits (.ok p) reached) : reached = visits := by
  generalize hr : (Except.ok p : Except ProvidedError ProvidedFields) = result at h
  induction h with
  | finished q => rfl
  | visited _ _ ih => rw [ih hr]
  | stopped => cases hr

/-- Repetitions in a request do not change how far a resolution comes. -/
theorem of_eraseDups (h : Reaches bindings names.eraseDups require visits result reached) :
    Reaches bindings names require visits result reached := by
  induction h with
  | finished p => exact .finished p
  | visited passes _ ih => exact .visited (Visit.passes_eraseDups.mp passes) ih
  | stopped visits passes fails =>
      exact .stopped visits (Visit.passes_eraseDups.mp passes)
        (Value.Fails.mono fails (mt (Dict.eraseDups_eq_nil_iff names).mpr))

end Reaches

/-- A run through the steps of some visits reports the events of the visits that it reaches. -/
theorem Inspection.exists_reaches_run (r : Inspection) (bindings : Variables) (fieldName : String)
    (visits : List Visit) (p : ProvidedFields) :
    ∃ reached,
      Reaches bindings r.requested r.requireBound visits
        (r.run bindings fieldName (visits.flatMap Visit.steps) p).result reached ∧
      (r.run bindings fieldName (visits.flatMap Visit.steps) p).events =
        reached.flatMap (Visit.events bindings fieldName) := by
  induction visits generalizing p with
  | nil => exact ⟨[], .finished p, rfl⟩
  | cons v visits ih =>
      rw [List.flatMap_cons]
      by_cases hv : v.Passes bindings r.requested r.requireBound
      · obtain ⟨q, hq⟩ := run_append_of_passes hv.steps fieldName (visits.flatMap Visit.steps) p
        obtain ⟨reached, hreached, hevents⟩ := ih q
        refine ⟨v :: reached, ?_, ?_⟩
        · rw [hq]
          exact .visited hv hreached
        · rw [hq, List.flatMap_cons, ← hevents, ← Visit.filterMap_event?_steps]
          rfl
      · obtain ⟨s, sought⟩ := v
        obtain ⟨before, argument, x, after, e, rfl, hbefore, he⟩ :=
          Visit.exists_first_of_not_passes hv
        have hsteps : Visit.steps ⟨s, before ++ (argument, some x) :: after⟩ =
            Visit.steps ⟨s, before⟩ ++ .argument argument x :: after.map Visit.step := by
          simp [Visit.steps, Visit.step]
        rw [hsteps, List.append_assoc, List.cons_append]
        obtain ⟨q, hq⟩ := run_append_of_passes hbefore.steps fieldName
          (.argument argument x :: (after.map Visit.step ++ visits.flatMap Visit.steps)) p
        rw [hq, run_cons_of_fails he]
        refine ⟨[⟨s, before⟩], .stopped visits hbefore he, ?_⟩
        simp [Logged.report, Logged.silent, ← Visit.filterMap_event?_steps]

end MutationInput
