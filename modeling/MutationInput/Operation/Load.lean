import MutationInput.Operation.Basic

/-!
# Loading operations from their trees

Loading keeps the tree of a definition: its selections at every depth, their order, names and
locations, and the arguments in written order with their values. Directives, types and defaults
are left behind. It fails at the first name that is repeated where it must not be: first among the
variables, then through the selections in order, the arguments of a field before what is nested in
it.
-/
namespace MutationInput

/-- Loads a field. -/
def Field.load (f : Tree.Field) : Except BuildError Field :=
  f.arguments.foldlM (fun g a => g.addArgument a.1 (Value.ofLiteral a.2))
    ⟨f.aliasName, f.name, f.location, Dict.empty⟩

mutual

/-- Loads a selection. -/
def Selection.load : Tree.Selection → Except BuildError Selection
  | .field head nested => do
    let f ← Field.load head
    let set ← loadSelections nested
    return .field f set
  | .spread fragment location _ => .ok (.spread fragment location)
  | .inline condition location _ nested => do
    let set ← loadSelections nested
    return .inline condition location set

/-- Loads selections in order. -/
def loadSelections : List Tree.Selection → Except BuildError (List Selection)
  | [] => .ok []
  | s :: rest => do
    let x ← Selection.load s
    let xs ← loadSelections rest
    return x :: xs

end

/-- The names of definitions of variables after those seen, each of which must be new. The location
of a refusal is the definition's. -/
def loadVariables (seen : List String) :
    List Tree.VariableDefinition → Except BuildError (List String)
  | [] => .ok seen
  | v :: rest =>
    if seen.contains v.name then .error (.duplicateVariable v.name v.location)
    else loadVariables (seen ++ [v.name]) rest

/-- Loads an operation. -/
def Operation.load (op : Tree.Operation) : Except BuildError Operation := do
  let declared ← loadVariables [] op.definitions
  let selections ← loadSelections op.selections
  return ⟨op.kind, op.name, op.location, declared, selections⟩

end MutationInput
