import MutationInput.Library
import MutationInput.Tree.Document
import MutationInput.Value

/-!
# Operations

An operation holds the names of the variables it declares and its selections. Argument names are
unique within a field and variable names within an operation: `addArgument` and `addVariable`
refuse a name that is there already. An operation or a field that is being put together by hand is
an operation or a field like any other.
-/
namespace MutationInput

/-- Why an operation could not be built. -/
inductive BuildError where
  /-- A field has two arguments of the same name. -/
  | duplicateArgument (argument field : String) (location : Location)
  /-- An operation declares a variable twice. -/
  | duplicateVariable (name : String) (location : Location)
  /-- The text is not a document. -/
  | unparsable (text : String) (fault : Tree.ParseFault)
  deriving DecidableEq, Repr

/-- The message of a build error. -/
def BuildError.message (lib : Library) : BuildError → String
  | .duplicateArgument argument field location =>
    "Found multiple `" ++ argument ++ "` arguments on a selection of field `" ++ field ++ "` at " ++
      location.text ++ "."
  | .duplicateVariable name location =>
    "Found multiple variables named `$" ++ name ++ "` on the operation at " ++ location.text ++ "."
  | .unparsable text fault =>
    "Error parsing operation document: " ++ fault.message (lib.syntaxFault text)

/-- A field with its arguments, without the selections nested in it. -/
structure Field where
  aliasName : Option String
  name : String
  location : Location
  arguments : Dict Value
  deriving Inhabited

namespace Field

/-- The field of a name, without alias, location and arguments. -/
def named (name : String) : Field :=
  ⟨none, name, .unset, Dict.empty⟩

/-- The name under which the field is selected: its alias if it has one. -/
def selectedName (f : Field) : String :=
  f.aliasName.getD f.name

/-- The value of an argument. -/
def argument? (f : Field) (name : String) : Option Value :=
  f.arguments.get? name

/-- The field with one more argument after the ones it has. -/
def addArgument (f : Field) (name : String) (v : Value) : Except BuildError Field :=
  if f.arguments.contains name then .error (.duplicateArgument name f.name f.location)
  else .ok { f with arguments := f.arguments.insert name v }

/-- Whether two fields are equal, their arguments in whatever order. -/
def same (f g : Field) : Bool :=
  f.aliasName == g.aliasName && f.name == g.name && f.location == g.location &&
    f.arguments.same Value.same g.arguments

end Field

/-- A selection of an operation. Fragments are kept by name and never expanded. -/
inductive Selection where
  | field (head : Field) (nested : List Selection)
  | spread (fragment : String) (location : Location)
  | inline (condition : Option String) (location : Location) (nested : List Selection)
  deriving Inhabited

namespace Selection

/-- The field that a selection selects. -/
def field? : Selection → Option Field
  | .field head _ => some head
  | _ => none

mutual

/-- Whether two selections are equal. -/
def same : Selection → Selection → Bool
  | .field f xs, .field g ys => f.same g && sameSelections xs ys
  | .spread a l, .spread b m => a == b && l == m
  | .inline a l xs, .inline b m ys => a == b && l == m && sameSelections xs ys
  | _, _ => false

/-- Whether two lists have equal selections at every position. -/
def sameSelections : List Selection → List Selection → Bool
  | [], [] => true
  | x :: xs, y :: ys => same x y && sameSelections xs ys
  | _, _ => false

end

end Selection

/-- A query, mutation or subscription. -/
structure Operation where
  kind : OperationKind
  name : Option String
  location : Location
  /-- The names of the declared variables, in order of declaration. -/
  declared : List String
  selections : List Selection
  deriving Inhabited

namespace Operation

/-- The operation of a kind without name, location, variables and selections. -/
def ofKind (kind : OperationKind) : Operation :=
  ⟨kind, none, .unset, [], []⟩

/-- The operation with one more declared variable. The location of a refusal is the operation's. -/
def addVariable (op : Operation) (name : String) : Except BuildError Operation :=
  if op.declared.contains name then .error (.duplicateVariable name op.location)
  else .ok { op with declared := op.declared ++ [name] }

/-- The operation with one more selection after the ones it has. -/
def addSelection (op : Operation) (s : Selection) : Operation :=
  { op with selections := op.selections ++ [s] }

/-- The fields selected at the top level. -/
def fields (op : Operation) : List Field :=
  op.selections.filterMap Selection.field?

/-- Whether a variable is declared. -/
def declares (op : Operation) (name : String) : Bool :=
  op.declared.contains name

/-- Whether two operations are equal, their variables in whatever order. -/
def same (a b : Operation) : Bool :=
  a.kind == b.kind && a.name == b.name && a.location == b.location &&
    a.declared.length == b.declared.length && a.declared.all b.declared.contains &&
    Selection.sameSelections a.selections b.selections

end Operation

end MutationInput
