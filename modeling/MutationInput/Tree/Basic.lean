import MutationInput.Location
import MutationInput.Number
import MutationInput.OperationKind

/-!
# Trees of executable documents

The tree of a document holds what its text says, before any rule on names is applied: arguments
and variable definitions stand in the order in which they were written, with their repetitions.
An object literal is the exception; it holds each name once. A literal may also be a run of bytes,
which no text denotes, or hold a number too large for binary64, for which every text is refused.
-/
namespace MutationInput.Tree

/-- A literal of an argument, a directive or a default. -/
inductive Literal where
  | variable (name : String)
  | number (n : Number)
  | string (s : String)
  | bytes (b : List UInt8)
  | boolean (b : Bool)
  | null
  | enum (name : String)
  | list (items : List Literal)
  | object (fields : List (String × Literal))
  deriving Inhabited

mutual

/-- Whether a number in a literal is too large. -/
def Literal.overflows : Literal → Bool
  | .number n => n.overflows
  | .list items => itemsOverflow items
  | .object fields => fieldsOverflow fields
  | _ => false

/-- Whether a number in one of the literals is too large. -/
def itemsOverflow : List Literal → Bool
  | [] => false
  | v :: items => v.overflows || itemsOverflow items

/-- Whether a number in one of the named literals is too large. -/
def fieldsOverflow : List (String × Literal) → Bool
  | [] => false
  | (_, v) :: fields => v.overflows || fieldsOverflow fields

end

/-- A directive with its arguments. -/
structure Directive where
  name : String
  arguments : List (String × Literal)
  deriving Inhabited

/-- A field without the selections nested in it. -/
structure Field where
  aliasName : Option String
  name : String
  location : Location
  arguments : List (String × Literal)
  directives : List Directive
  deriving Inhabited

/-- A selection. A field without a selection set has no nested selections. -/
inductive Selection where
  | field (head : Field) (nested : List Selection)
  | spread (fragment : String) (location : Location) (directives : List Directive)
  | inline (condition : Option String) (location : Location) (directives : List Directive)
      (nested : List Selection)
  deriving Inhabited

/-- A variable definition. The type it gives is read and not kept. -/
structure VariableDefinition where
  name : String
  location : Location
  directives : List Directive
  default? : Option Literal
  deriving Inhabited

/-- An operation definition. -/
structure Operation where
  kind : OperationKind
  name : Option String
  location : Location
  definitions : List VariableDefinition
  directives : List Directive
  selections : List Selection
  deriving Inhabited

/-- A fragment definition. -/
structure Fragment where
  name : String
  condition : String
  directives : List Directive
  selections : List Selection
  deriving Inhabited

/-- A definition of either sort. -/
inductive Definition where
  | operation (op : Operation)
  | fragment (f : Fragment)
  deriving Inhabited

/-- The definitions of a document, operations and fragments apart. -/
structure Document where
  operations : List Operation
  fragments : List Fragment
  deriving Inhabited

end MutationInput.Tree
