import MutationInput.Proofs.Loading.Failures

/-!
# Operations put together by hand

A definition can also be followed by hand: its kind, its location and its name are set, its
variables are declared and its selections are added, one after the other. `Operation.assemble` does
so, and `load_agrees_assemble` compares it with loading. The two accept the same definitions and
build the same operations, and where they refuse a variable it is the same one. They differ in the
location that they report: loading reports where the variable is defined, and by hand it is where
the operation is.
-/
namespace MutationInput

/-- The operation that is put together by hand from a definition and selections. -/
def Operation.assemble (definition : Tree.Operation) (selections : List Selection) :
    Except BuildError Operation := do
  let located := { ofKind definition.kind with location := definition.location }
  let named := { located with name := definition.name }
  let op ← definition.definitions.foldlM (fun op v => op.addVariable v.name) named
  return selections.foldl addSelection op

/-- Loading a definition and putting it together by hand come to the same operation, or to a
refusal of the same variable. -/
inductive Operation.Agrees (definition : Tree.Operation)
    (loaded assembled : Except BuildError Operation) : Prop where
  | accepted {op : Operation}
      (distinct : (definition.definitions.map Tree.VariableDefinition.name).Nodup)
      (loads : loaded = .ok op) (assembles : assembled = .ok op) :
      Agrees definition loaded assembled
  | refused {v : Tree.VariableDefinition}
      (first : FirstRepeat Tree.VariableDefinition.name definition.definitions v)
      (loads : loaded = .error (.duplicateVariable v.name v.location))
      (assembles : assembled = .error (.duplicateVariable v.name definition.location)) :
      Agrees definition loaded assembled

namespace Operation

/-- Variables that are accepted when a definition is loaded can be added by hand. -/
theorem addVariables_of_loadVariables {definitions : List Tree.VariableDefinition} {op : Operation}
    {declared : List String} (h : loadVariables op.declared definitions = .ok declared) :
    definitions.foldlM (fun op v => op.addVariable v.name) op =
      .ok { op with declared := declared } := by
  induction definitions generalizing op with
  | nil =>
      cases h
      rfl
  | cons v rest ih =>
      rw [loadVariables] at h
      by_cases hv : op.declared.contains v.name = true
      · rw [if_pos hv] at h
        cases h
      · rw [if_neg hv] at h
        rw [List.foldlM_cons, addVariable, if_neg hv]
        exact ih h

theorem foldl_addSelection (selections : List Selection) (op : Operation) :
    selections.foldl addSelection op = { op with selections := op.selections ++ selections } := by
  induction selections generalizing op with
  | nil => simp
  | cons s rest ih =>
      rw [List.foldl_cons, ih]
      simp [addSelection]

end Operation

/-- Loading a definition whose selections load, and putting it together by hand from the loaded
selections, differ in nothing but the location of a variable that is refused. -/
theorem load_agrees_assemble {definition : Tree.Operation} {selections : List Selection}
    (hs : loadSelections definition.selections = .ok selections) :
    Operation.Agrees definition (Operation.load definition)
      (Operation.assemble definition selections) := by
  cases hd : loadVariables [] definition.definitions with
  | ok declared =>
      have hdistinct := (loadVariables_eq_ok_iff List.nodup_nil).mp hd
      have hloads : Operation.load definition =
          .ok ⟨definition.kind, definition.name, definition.location, declared, selections⟩ := by
        rw [Operation.load, hd, hs]
        rfl
      have hassembles : Operation.assemble definition selections =
          .ok ⟨definition.kind, definition.name, definition.location, declared, selections⟩ := by
        rw [Operation.assemble, Operation.addVariables_of_loadVariables hd]
        exact congrArg Except.ok (Operation.foldl_addSelection selections _)
      exact .accepted hdistinct.1 hloads hassembles
  | error e =>
      obtain ⟨v, hfirst, rfl⟩ := loadVariables_eq_error_iff.mp hd
      have hloads : Operation.load definition = .error (.duplicateVariable v.name v.location) :=
        Operation.load_eq_error_iff.mpr (.declared_twice hfirst)
      have hassembles : Operation.assemble definition selections =
          .error (.duplicateVariable v.name definition.location) := by
        rw [Operation.assemble, bind_pure_eq_error_iff]
        exact (Operation.collects_addVariable.foldlM_eq_error_iff_firstRepeat rfl).mpr
          ⟨v, hfirst, rfl⟩
      exact .refused hfirst hloads hassembles

/-- A query that declares a variable twice, in `query Q($a: Int, $a: Int) { f }`. -/
def Tree.Operation.declaresTwice : Tree.Operation where
  kind := .query
  name := some "Q"
  location := ⟨1, 1⟩
  definitions := [⟨"a", ⟨1, 9⟩, [], none⟩, ⟨"a", ⟨1, 18⟩, [], none⟩]
  directives := []
  selections := [.field ⟨none, "f", ⟨1, 29⟩, [], []⟩ []]

/-- The second definition of the variable is refused in both ways. -/
theorem load_agrees_assemble_declaresTwice :
    loadSelections Tree.Operation.declaresTwice.selections =
        .ok [.field ⟨none, "f", ⟨1, 29⟩, Dict.empty⟩ []] ∧
      Operation.Agrees Tree.Operation.declaresTwice (Operation.load Tree.Operation.declaresTwice)
        (Operation.assemble Tree.Operation.declaresTwice
          [.field ⟨none, "f", ⟨1, 29⟩, Dict.empty⟩ []]) :=
  ⟨rfl, load_agrees_assemble rfl⟩

/-- The two refusals are not the same: one has the location of the definition of the variable, the
other that of the operation. -/
theorem load_ne_assemble_declaresTwice :
    loadSelections Tree.Operation.declaresTwice.selections =
        .ok [.field ⟨none, "f", ⟨1, 29⟩, Dict.empty⟩ []] ∧
      Operation.load Tree.Operation.declaresTwice =
        .error (.duplicateVariable "a" ⟨1, 18⟩) ∧
      Operation.assemble Tree.Operation.declaresTwice
          [.field ⟨none, "f", ⟨1, 29⟩, Dict.empty⟩ []] =
        .error (.duplicateVariable "a" ⟨1, 1⟩) ∧
      Operation.load Tree.Operation.declaresTwice ≠
        Operation.assemble Tree.Operation.declaresTwice
          [.field ⟨none, "f", ⟨1, 29⟩, Dict.empty⟩ []] := by
  refine ⟨rfl, rfl, rfl, ?_⟩
  intro h
  cases h

end MutationInput
