import MutationInput.Proofs.Loading.Repeats

/-!
# Why a document is refused

Loading reports the first fault that it meets: in the operations by location, inside an operation
first in the variables, and then in the fields in the order in which a reader of the document meets
them, `Tree.fieldsInOrder`. Selections fail as this list of fields does
(`loadSelections_eq_error_iff_mapM`), and `load_reports_first` puts the levels together.
-/
namespace MutationInput

namespace Tree

mutual

/-- The fields that a selection selects, at every depth, each before the fields nested in it. -/
def Selection.fieldsInOrder : Selection → List Field
  | .field head nested => head :: fieldsInOrder nested
  | .spread .. => []
  | .inline _ _ _ nested => fieldsInOrder nested

/-- The fields that selections select, at every depth, in document order. -/
def fieldsInOrder : List Selection → List Field
  | [] => []
  | s :: rest => s.fieldsInOrder ++ fieldsInOrder rest

end

theorem fieldsInOrder_eq_flatMap (ss : List Selection) :
    fieldsInOrder ss = ss.flatMap Selection.fieldsInOrder := by
  induction ss with
  | nil => rfl
  | cons s ss ih => rw [fieldsInOrder, List.flatMap_cons, ih]

/-- The definition of an operation is refused with an error: that of the first variable of a
repeated name, or, if there is none, that of the first field in which an argument is repeated. -/
inductive Operation.Refused (op : Operation) : BuildError → Prop where
  | declared_twice {v : VariableDefinition}
      (first : FirstRepeat VariableDefinition.name op.definitions v) :
      Refused op (.duplicateVariable v.name v.location)
  | passed_twice {before after : List Field} {f : Field} {a : String × Literal}
      (declared : (op.definitions.map VariableDefinition.name).Nodup)
      (split : fieldsInOrder op.selections = before ++ f :: after)
      (earlier : ∀ g ∈ before, (g.arguments.map Prod.fst).Nodup)
      (first : FirstRepeat Prod.fst f.arguments a) :
      Refused op (.duplicateArgument a.1 f.name f.location)

end Tree

/-! ## Selections -/

theorem Field.exists_load_iff {f : Tree.Field} :
    (∃ g, Field.load f = .ok g) ↔ (f.arguments.map Prod.fst).Nodup := by
  constructor
  · rintro ⟨g, h⟩
    exact (Field.load_eq_ok_iff.mp h).1
  · exact Field.exists_load

/-- A selection is refused as its fields are, one after the other. -/
theorem Selection.load_eq_error_iff_mapM {s : Tree.Selection} {e : BuildError} :
    Selection.load s = .error e ↔ s.fieldsInOrder.mapM Field.load = .error e := by
  induction s using Tree.Selection.induct generalizing e with
  | field head nested ih =>
      have hnested : loadSelections nested = .error e ↔
          (Tree.fieldsInOrder nested).mapM Field.load = .error e := by
        rw [loadSelections_eq_mapM, Tree.fieldsInOrder_eq_flatMap]
        exact mapM_eq_error_iff_flatMap (fun s hs _ => ih s hs) e
      -- The arguments of the field come first on both sides.
      rw [Selection.load, Tree.Selection.fieldsInOrder, mapM_cons_eq_error_iff, bind_eq_error_iff]
      simp only [bind_pure_eq_error_iff, hnested, exists_and_right]
  | spread fragment location directives =>
      constructor
      · intro h
        cases h
      · intro h
        cases h
  | inline condition location directives nested ih =>
      rw [Selection.load, Tree.Selection.fieldsInOrder, bind_pure_eq_error_iff,
        loadSelections_eq_mapM, Tree.fieldsInOrder_eq_flatMap]
      exact mapM_eq_error_iff_flatMap (fun s hs _ => ih s hs) e

theorem loadSelections_eq_error_iff_mapM {ss : List Tree.Selection} {e : BuildError} :
    loadSelections ss = .error e ↔ (Tree.fieldsInOrder ss).mapM Field.load = .error e := by
  rw [loadSelections_eq_mapM, Tree.fieldsInOrder_eq_flatMap]
  exact mapM_eq_error_iff_flatMap (fun _ _ _ => Selection.load_eq_error_iff_mapM) e

/-- Selections are refused at the first field, in document order, that repeats an argument. -/
theorem loadSelections_eq_error_iff {ss : List Tree.Selection} {e : BuildError} :
    loadSelections ss = .error e ↔ ∃ before f after a,
      Tree.fieldsInOrder ss = before ++ f :: after ∧
      (∀ g ∈ before, (g.arguments.map Prod.fst).Nodup) ∧ FirstRepeat Prod.fst f.arguments a ∧
      e = .duplicateArgument a.1 f.name f.location := by
  rw [loadSelections_eq_error_iff_mapM, mapM_eq_error_iff]
  simp only [Field.exists_load_iff, Field.load_eq_error_iff]
  constructor
  · rintro ⟨before, f, after, hsplit, hbefore, a, ha, he⟩
    exact ⟨before, f, after, a, hsplit, hbefore, ha, he⟩
  · rintro ⟨before, f, after, a, hsplit, hbefore, ha, he⟩
    exact ⟨before, f, after, hsplit, hbefore, a, ha, he⟩

/-! ## Operations and documents -/

theorem Operation.exists_load_iff {definition : Tree.Operation} :
    (∃ op, Operation.load definition = .ok op) ↔ definition.Distinct := by
  constructor
  · rintro ⟨op, h⟩
    exact (Operation.mirrors_of_load h).1
  · exact Operation.exists_load

theorem Operation.load_eq_error_iff {definition : Tree.Operation} {e : BuildError} :
    Operation.load definition = .error e ↔ definition.Refused e := by
  rw [Operation.load, bind_eq_error_iff, loadVariables_eq_error_iff]
  simp only [bind_pure_eq_error_iff, loadSelections_eq_error_iff,
    loadVariables_eq_ok_iff List.nodup_nil, List.nil_append]
  constructor
  · rintro (⟨v, hv, rfl⟩ | ⟨_, ⟨hdeclared, -⟩, before, f, after, a, hsplit, hbefore, ha, rfl⟩)
    · exact .declared_twice hv
    · exact .passed_twice hdeclared hsplit hbefore ha
  · intro h
    cases h with
    | @declared_twice v first => exact .inl ⟨v, first, rfl⟩
    | @passed_twice before after f a declared split earlier first =>
        exact .inr ⟨_, ⟨declared, rfl⟩, before, f, after, a, split, earlier, first, rfl⟩

/-- A document is refused at the first of its operations, in the order of their locations, that is
refused, and with its error. -/
theorem Document.load_reports_first (d : Tree.Document) :
    d.ordered.Perm d.operations ∧
      d.ordered.Pairwise (fun a b => a.location.le b.location = true) ∧
      ∀ e, Document.load d = .error e ↔ ∃ before definition after,
        d.ordered = before ++ definition :: after ∧
          (∀ earlier ∈ before, earlier.Distinct) ∧ definition.Refused e := by
  refine ⟨List.mergeSort_perm _ _, pairwise_ordered d, ?_⟩
  intro e
  rw [Document.load, map_eq_error_iff, loadAll_eq_mapM, mapM_eq_error_iff]
  simp only [Operation.exists_load_iff, Operation.load_eq_error_iff]

end MutationInput
