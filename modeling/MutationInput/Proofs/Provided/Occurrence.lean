import MutationInput.Proofs.Provided.Names

/-!
# Occurrences of arguments

An occurrence is an argument that a selection passes. `Operation.occurrences` lists those that a
request looks at: the selections of the field at the top level in document order, and inside each
the requested arguments in the order of the request, or all of them as they are written.
-/
namespace MutationInput

/-- An argument that a selection passes. -/
structure Occurrence where
  selection : Field
  argument : String
  value : Value

/-- The passed arguments of a selection: the requested ones in the order of the request, or all as
they are written if none is requested. -/
def Field.occurrences (s : Field) (requested : List String) : List Occurrence :=
  if requested = [] then s.arguments.entries.map fun e => ⟨s, e.1, e.2⟩
  else requested.filterMap fun name => (s.argument? name).map fun v => ⟨s, name, v⟩

namespace Operation

/-- The selections of a field among some selections, by name, and without what is nested. -/
def selectedAmong (fieldName : String) : List Selection → List Field
  | [] => []
  | .field s _ :: rest =>
    if s.name = fieldName then s :: selectedAmong fieldName rest else selectedAmong fieldName rest
  | _ :: rest => selectedAmong fieldName rest

/-- The top-level selections of a field in document order. -/
def selected (op : Operation) (fieldName : String) : List Field :=
  selectedAmong fieldName op.selections

/-- The occurrences that are inspected for a field, in document order. -/
def occurrences (op : Operation) (fieldName : String) (requested : List String) :
    List Occurrence :=
  (op.selected fieldName).flatMap fun s => s.occurrences requested

/-- A selection of the field at the top level passes an argument that is requested, or any argument
if none is requested. -/
structure Inspects (op : Operation) (fieldName : String) (names : List String)
    (o : Occurrence) : Prop where
  top_level : ∃ nested, Selection.field o.selection nested ∈ op.selections
  by_name : o.selection.name = fieldName
  passed : o.selection.argument? o.argument = some o.value
  requested : names = [] ∨ o.argument ∈ names

theorem mem_selectedAmong {fieldName : String} {selections : List Selection} {s : Field} :
    s ∈ selectedAmong fieldName selections ↔
      (∃ nested, Selection.field s nested ∈ selections) ∧ s.name = fieldName := by
  induction selections with
  | nil => simp [selectedAmong]
  | cons x rest ih =>
      cases x with
      | field t nested =>
          by_cases ht : t.name = fieldName
          · simp only [selectedAmong, if_pos ht, List.mem_cons, ih, Selection.field.injEq]
            constructor
            · rintro (rfl | ⟨⟨n, hn⟩, hs⟩)
              · exact ⟨⟨nested, .inl ⟨rfl, rfl⟩⟩, ht⟩
              · exact ⟨⟨n, .inr hn⟩, hs⟩
            · rintro ⟨⟨n, ⟨rfl, rfl⟩ | hn⟩, hs⟩
              · exact .inl rfl
              · exact .inr ⟨⟨n, hn⟩, hs⟩
          · simp only [selectedAmong, if_neg ht, List.mem_cons, ih, Selection.field.injEq]
            constructor
            · rintro ⟨⟨n, hn⟩, hs⟩
              exact ⟨⟨n, .inr hn⟩, hs⟩
            · rintro ⟨⟨n, ⟨rfl, rfl⟩ | hn⟩, hs⟩
              · exact absurd hs ht
              · exact ⟨⟨n, hn⟩, hs⟩
      | spread fragment location => simp [selectedAmong, ih]
      | inline condition location nested => simp [selectedAmong, ih]

/-- The matching selections of a resolution are those of the field. -/
theorem matching_eq_selected (op : Operation) (fieldName : String) :
    Inspection.matching op fieldName = op.selected fieldName := by
  simp only [Inspection.matching, fields, selected]
  induction op.selections with
  | nil => rfl
  | cons x rest ih =>
      cases x with
      | field t nested =>
          by_cases ht : t.name = fieldName <;>
            simp [Selection.field?, selectedAmong, ht, ih]
      | spread fragment location =>
          rw [List.filterMap_cons_none rfl, selectedAmong, ih]
          simp
      | inline condition location nested =>
          rw [List.filterMap_cons_none rfl, selectedAmong, ih]
          simp

end Operation

namespace Field

theorem occurrences_all (s : Field) :
    s.occurrences [] = s.arguments.entries.map fun e => ⟨s, e.1, e.2⟩ := rfl

theorem occurrences_requested (s : Field) {requested : List String} (h : requested ≠ []) :
    s.occurrences requested =
      requested.filterMap fun name => (s.argument? name).map fun v => ⟨s, name, v⟩ :=
  if_neg h

theorem mem_occurrences {s : Field} {requested : List String} {o : Occurrence} :
    o ∈ s.occurrences requested ↔
      o.selection = s ∧ s.argument? o.argument = some o.value ∧
        (requested = [] ∨ o.argument ∈ requested) := by
  obtain ⟨t, argument, v⟩ := o
  by_cases hr : requested = []
  · subst hr
    simp only [occurrences_all, List.mem_map, Occurrence.mk.injEq, true_or, and_true]
    constructor
    · rintro ⟨e, he, rfl, rfl, rfl⟩
      exact ⟨rfl, (Dict.get?_eq_some_iff _ _ _).mpr he⟩
    · rintro ⟨rfl, ha⟩
      exact ⟨(argument, v), (Dict.get?_eq_some_iff _ _ _).mp ha, rfl, rfl, rfl⟩
  · simp only [occurrences_requested s hr, List.mem_filterMap, Option.map_eq_some_iff,
      Occurrence.mk.injEq, hr, false_or]
    constructor
    · rintro ⟨name, hname, w, hw, rfl, rfl, rfl⟩
      exact ⟨rfl, hw, hname⟩
    · rintro ⟨rfl, ha, hname⟩
      exact ⟨argument, hname, v, ha, rfl, rfl, rfl⟩

/-- Selections that pass related values under the arguments that are looked at have related
occurrences. -/
theorem forall₂_occurrences {R : Value → Value → Prop} {s t : Field} {requested : List String}
    (h : if requested = [] then
        List.Forall₂ (fun x y => x.1 = y.1 ∧ R x.2 y.2) s.arguments.entries t.arguments.entries
      else ∀ name ∈ requested, Option.Rel R (s.argument? name) (t.argument? name)) :
    List.Forall₂ (fun o o' => o.argument = o'.argument ∧ R o.value o'.value)
      (s.occurrences requested) (t.occurrences requested) := by
  by_cases hr : requested = []
  · subst hr
    rw [if_pos rfl] at h
    rw [occurrences_all, occurrences_all, List.forall₂_map_left_iff, List.forall₂_map_right_iff]
    exact h
  · rw [if_neg hr] at h
    rw [occurrences_requested s hr, occurrences_requested t hr]
    have hself : List.Forall₂ (fun m n => m = n ∧ m ∈ requested) requested requested :=
      List.forall₂_same.mpr fun n hm => ⟨rfl, hm⟩
    refine List.rel_filterMap ?_ hself
    rintro n _ ⟨rfl, hm⟩
    have hpassed := h n hm
    dsimp only
    generalize s.argument? n = x, t.argument? n = y at hpassed ⊢
    cases hpassed with
    | some hv => exact .some ⟨rfl, hv⟩
    | none => exact .none

end Field

/-- The pass goes through exactly the occurrences that are inspected. -/
theorem Operation.mem_occurrences {op : Operation} {fieldName : String} {requested : List String}
    {o : Occurrence} :
    o ∈ op.occurrences fieldName requested ↔ op.Inspects fieldName requested o := by
  simp only [Operation.occurrences, List.mem_flatMap, Operation.selected, mem_selectedAmong,
    Field.mem_occurrences]
  constructor
  · rintro ⟨s, ⟨htop, hname⟩, rfl, hpassed, hrequested⟩
    exact ⟨htop, hname, hpassed, hrequested⟩
  · intro h
    exact ⟨o.selection, ⟨h.top_level, h.by_name⟩, rfl, h.passed, h.requested⟩

/-- Repetitions in a request do not change what is inspected. -/
theorem Operation.inspects_eraseDups {op : Operation} {fieldName : String} {names : List String}
    {o : Occurrence} : op.Inspects fieldName names.eraseDups o ↔ op.Inspects fieldName names o := by
  constructor
  · intro h
    exact ⟨h.top_level, h.by_name, h.passed,
      by simpa [Dict.eraseDups_eq_nil_iff] using h.requested⟩
  · intro h
    exact ⟨h.top_level, h.by_name, h.passed,
      by simpa [Dict.eraseDups_eq_nil_iff] using h.requested⟩

end MutationInput
