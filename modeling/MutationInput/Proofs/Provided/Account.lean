import MutationInput.Proofs.Provided.Entries
import MutationInput.Proofs.Provided.Visits

/-!
# What a resolution reports

The log of a resolution is an account of the visits that it reaches. It announces each of them, and
behind the announcement it has one event for each requested argument that is not passed and one for
each argument that is passed and contributes nothing: `resolve_accounts`. If the resolution does not
come to a selection of the field, the log is empty.
-/
namespace MutationInput

/-! ## The account of some visits -/

/-- A log accounts for the visits that were reached. -/
structure Accounts (bindings : Variables) (fieldName : String) (reached : List Visit)
    (events : List Event) : Prop where
  /-- The events are those of the visits, one visit after the other. -/
  whole : events = reached.flatMap (Visit.events bindings fieldName)
  /-- Every visit is announced, once. -/
  inspecting : events.filter Event.isInspecting = reached.map (Visit.announcement fieldName)
  /-- An argument that contributes nothing has one event that tells of it, and one that contributes
  has none. -/
  skipped : List.Forall₂ (fun o e => o.value.Skips bindings o.argument e)
    ((reached.flatMap Visit.occurrences).filter fun o => !o.value.contributes bindings)
    (events.filter fun e => e.level = .debug)
  /-- An argument that is not passed has one event. -/
  absent : events.filter Event.isAbsence =
    (reached.flatMap Visit.absent).map fun name => .argumentAbsent name fieldName
  /-- No variable was taken to provide no fields. -/
  bound : ∀ name, Event.noBinding name ∉ events

namespace Visit

variable {bindings : Variables} {fieldName : String}

/-- The notes on the arguments of a visit are no announcements. -/
theorem filter_isInspecting_events (v : Visit) :
    (v.events bindings fieldName).filter Event.isInspecting = [v.announcement fieldName] := by
  rw [events, List.filter_cons_of_pos rfl, List.filter_filterMap]
  congr 1
  rw [List.filterMap_eq_nil_iff]
  rintro ⟨name, _ | x⟩ -
  · rfl
  · rw [Option.filter_eq_none_iff]
    intro e he
    simp [(Value.skips_of_skipped? he).isInspecting_eq]

/-- The notes on the arguments that are not passed stand in the order in which these are sought. -/
theorem filter_isAbsence_events (v : Visit) :
    (v.events bindings fieldName).filter Event.isAbsence =
      v.absent.map fun name => .argumentAbsent name fieldName := by
  obtain ⟨s, sought⟩ := v
  rw [events, List.filter_cons_of_neg (by simp [announcement, Event.isAbsence]), absent,
    List.filter_filterMap]
  induction sought with
  | nil => rfl
  | cons a sought ih =>
      obtain ⟨name, _ | x⟩ := a
      · have hname : (note? bindings fieldName (name, none)).filter Event.isAbsence =
            some (.argumentAbsent name fieldName) := rfl
        simpa [hname] using ih
      · have hx : (note? bindings fieldName (name, some x)).filter Event.isAbsence = none := by
          rw [Option.filter_eq_none_iff]
          intro e he
          simp [(Value.skips_of_skipped? he).isAbsence_eq]
        simpa [hx] using ih

/-- At the debug level, the notes on the arguments that are passed are left. -/
theorem filter_debug_events (v : Visit) :
    (v.events bindings fieldName).filter (fun e => e.level = .debug) =
      v.occurrences.filterMap fun o => o.value.skipped? bindings o.argument := by
  rw [events, List.filter_cons_of_neg (by simp [announcement, Event.level]),
    List.filter_filterMap, occurrences, List.filterMap_filterMap]
  refine List.filterMap_congr ?_
  rintro ⟨name, _ | x⟩ -
  · rfl
  · change (x.skipped? bindings name).filter _ = x.skipped? bindings name
    cases hx : x.skipped? bindings name with
    | none => rfl
    | some e => simp [Option.filter, (Value.skips_of_skipped? hx).level_eq]

theorem noBinding_notMem_events (v : Visit) (name : String) :
    .noBinding name ∉ v.events bindings fieldName := by
  rw [events, List.mem_cons, List.mem_filterMap]
  rintro (h | ⟨⟨argument, _ | x⟩, -, h⟩)
  · cases h
  · cases h
  · exact (Value.skips_of_skipped? h).ne_noBinding name rfl

end Visit

/-- The occurrences that contribute nothing have an event each, and the others have none. -/
theorem Occurrence.forall₂_skips (bindings : Variables) (os : List Occurrence) :
    List.Forall₂ (fun o e => o.value.Skips bindings o.argument e)
      (os.filter fun o => !o.value.contributes bindings)
      (os.filterMap fun o => o.value.skipped? bindings o.argument) := by
  induction os with
  | nil => exact .nil
  | cons o os ih =>
      rcases o.value.skipped?_cases bindings o.argument with ⟨hc, hnone⟩ | ⟨hc, e, he, hskips⟩
      · simpa [hc, hnone] using ih
      · simpa [hc, he] using ⟨hskips, ih⟩

/-- The events of some visits account for them. -/
theorem accounts_events (bindings : Variables) (fieldName : String) (reached : List Visit) :
    Accounts bindings fieldName reached (reached.flatMap (Visit.events bindings fieldName)) where
  whole := rfl
  inspecting := by
    simp only [List.filter_flatMap, Visit.filter_isInspecting_events, List.map_eq_flatMap]
  skipped := by
    simp only [List.filter_flatMap, Visit.filter_debug_events, ← List.filterMap_flatMap]
    rw [← List.filter_flatMap]
    exact Occurrence.forall₂_skips bindings (reached.flatMap Visit.occurrences)
  absent := by
    simp only [List.filter_flatMap, Visit.filter_isAbsence_events, List.map_flatMap]
  bound := by
    intro name h
    obtain ⟨v, -, hv⟩ := List.mem_flatMap.mp h
    exact v.noBinding_notMem_events name hv

/-- As many events at the debug level as occurrences that do not contribute. -/
theorem Accounts.length_add {bindings : Variables} {fieldName : String} {reached : List Visit}
    {events : List Event} (h : Accounts bindings fieldName reached events) :
    (events.filter fun e => e.level = .debug).length +
        ((reached.flatMap Visit.occurrences).filter fun o =>
          o.value.contributes bindings).length =
      (reached.flatMap Visit.occurrences).length := by
  rw [← h.skipped.length_eq, Nat.add_comm, ← List.length_eq_length_filter_add]

/-! ## Resolutions -/

/-- The operation of a context is a mutation that selects the field of the context. -/
structure Context.Selects (ctx : Context) (op : Operation) (fieldName : String) : Prop where
  operation : ctx.operation = some op
  mutation : op.kind = .mutation
  field_name : ctx.fieldName = some fieldName
  selected : op.selected fieldName ≠ []

theorem Inspection.resolve_of_selects {r : Inspection} {ctx : Context} {op : Operation}
    {fieldName : String} (h : ctx.Selects op fieldName) :
    r.resolve ctx = r.run ctx.bindings fieldName
      ((op.visits fieldName r.requested).flatMap Visit.steps) Dict.empty := by
  rw [resolve_mutation h.operation h.mutation h.field_name, if_neg h.selected,
    Visit.steps_eq_flatMap]

/-- A resolution that does not come to a selection of the field reports nothing. -/
theorem Inspection.events_resolve_eq_nil {r : Inspection} {ctx : Context}
    (h : ∀ op fieldName, ¬ctx.Selects op fieldName) : (r.resolve ctx).events = [] := by
  cases hop : ctx.operation with
  | none => rw [resolve_no_operation hop, Logged.silent]
  | some op =>
      by_cases hk : op.kind = .mutation
      · cases hf : ctx.fieldName with
        | none => rw [resolve_no_field_name hop hk hf, Logged.silent]
        | some fieldName =>
            have hs : op.selected fieldName = [] := by
              by_contra hs
              exact h op fieldName ⟨hop, hk, hf, hs⟩
            rw [resolve_mutation hop hk hf, if_pos hs, Logged.silent]
      · rw [resolve_not_mutation hop hk, Logged.silent]

/-- The log of a resolution accounts for the selections of the field up to the first argument that
fails, and for all of them if none fails. In that case it has one event at the debug level for each
argument that is inspected and does not contribute. -/
theorem resolve_accounts {ctx : Context} {op : Operation} {fieldName : String}
    (h : ctx.Selects op fieldName) (names : List String) (require : Bool) :
    let resolution := ((Inspection.all.request names).requiring require).resolve ctx
    let inspected := op.occurrences fieldName names.eraseDups
    ∃ reached,
      Reaches ctx.bindings names require (op.visits fieldName names.eraseDups) resolution.result
        reached ∧
      Accounts ctx.bindings fieldName reached resolution.events ∧
      ∀ p, resolution.result = .ok p →
        (resolution.events.filter fun e => e.level = .debug).length +
            (inspected.filter fun o => o.value.contributes ctx.bindings).length =
          inspected.length := by
  intro resolution inspected
  let r := (Inspection.all.request names).requiring require
  have hrequested : r.requested = names.eraseDups := Inspection.requested_all_request names
  obtain ⟨reached, hreached, hevents⟩ :=
    r.exists_reaches_run ctx.bindings fieldName (op.visits fieldName r.requested) Dict.empty
  rw [← Inspection.resolve_of_selects h] at hreached hevents
  rw [hrequested] at hreached
  have haccounts : Accounts ctx.bindings fieldName reached resolution.events := by
    rw [hevents]
    exact accounts_events ctx.bindings fieldName reached
  refine ⟨reached, hreached.of_eraseDups, haccounts, ?_⟩
  intro p hp
  rw [hp] at hreached
  have hinspected : reached.flatMap Visit.occurrences = inspected := by
    rw [hreached.eq_of_ok, Visit.flatMap_occurrences]
  rw [← hinspected]
  exact haccounts.length_add

/-- Of the six arguments that are passed, the whole number and the variable without binding have an
event at the debug level, behind the announcement of the second selection. -/
theorem resolve_accounts_savesTwice :
    let ctx : Context := ⟨some Operation.savesTwice, some "save", Variables.patch⟩
    let resolution := ((Inspection.all.request []).requiring false).resolve ctx
    let inspected := Operation.savesTwice.occurrences "save" []
    ctx.Selects Operation.savesTwice "save" ∧
      resolution.events = [.inspecting "first" "save" ⟨1, 12⟩, .inspecting "save" "save" ⟨3, 12⟩,
        .kindSkipped "limit" .int, .unboundSkipped "input" "missing"] ∧
      ∃ reached,
        Reaches ctx.bindings [] false (Operation.savesTwice.visits "save" []) resolution.result
          reached ∧
        Accounts ctx.bindings "save" reached resolution.events ∧
        ∀ p, resolution.result = .ok p →
          (resolution.events.filter fun e => e.level = .debug).length +
              (inspected.filter fun o => o.value.contributes ctx.bindings).length =
            inspected.length := by
  intro ctx resolution inspected
  have hselected : Operation.savesTwice.selected "save" ≠ [] := by
    simp [Operation.selected, Operation.savesTwice, Operation.selectedAmong]
  have hselects : ctx.Selects Operation.savesTwice "save" := ⟨rfl, rfl, rfl, hselected⟩
  have hevents : resolution.events = [.inspecting "first" "save" ⟨1, 12⟩,
      .inspecting "save" "save" ⟨3, 12⟩, .kindSkipped "limit" .int,
      .unboundSkipped "input" "missing"] := rfl
  exact ⟨hselects, hevents, resolve_accounts hselects [] false⟩

/-- If bindings are required, the variable without binding ends the log. -/
example :
    (((Inspection.all.request ["tags", "input", "tags", "extra"]).requiring true).resolve
        ⟨some Operation.savesTwice, some "save", Variables.patch⟩).events =
      [.inspecting "first" "save" ⟨1, 12⟩, .inspecting "save" "save" ⟨3, 12⟩,
        .argumentAbsent "tags" "save"] := rfl

end MutationInput
