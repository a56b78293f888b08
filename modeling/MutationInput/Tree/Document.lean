import MutationInput.Tree.Grammar

/-!
# From text to a document

A text that matches the grammar is still refused when a number in it is too large for binary64 or
when selection sets nest too deep, whichever comes first in the text; next when two operations or
two fragments share a name, or an operation without a name stands beside another; and last when it
has no operation at all.
-/
namespace MutationInput.Tree

/-- Why a text is not a document. -/
inductive ParseFault where
  /-- The text does not match the grammar, or holds a number too large. -/
  | malformed
  /-- Selection sets are nested too deep. -/
  | tooDeep
  /-- An operation without a name stands beside another one. -/
  | multipleOperations
  /-- Two operations have the same name. -/
  | operationDuplicated (name : String)
  /-- Two fragments have the same name. -/
  | fragmentDuplicated (name : String)
  /-- There are fragments and no operation. -/
  | missingOperation
  deriving DecidableEq, Repr

/-- The message of a fault. What is told about a text that fails to match is given. -/
def ParseFault.message (syntaxFault : String) : ParseFault → String
  | .malformed => syntaxFault
  | .tooDeep => "recursion limit exceeded."
  | .multipleOperations => "document contains multiple operations"
  | .operationDuplicated name => "operation " ++ name ++ " is defined twice"
  | .fragmentDuplicated name => "fragment " ++ name ++ " is defined twice"
  | .missingOperation => "document does not contain an operation"

/-! ## Limits -/

/-- Whether a number in the arguments of one of the directives is too large. -/
def directivesOverflow (directives : List Directive) : Bool :=
  directives.any fun d => fieldsOverflow d.arguments

/-- The fault of a number too large, if there is one. -/
def overflowFault (overflow : Bool) : Option ParseFault :=
  if overflow then some .malformed else none

/-- Whether a definition of a variable holds a number too large. -/
def VariableDefinition.overflows (v : VariableDefinition) : Bool :=
  directivesOverflow v.directives || v.default?.any Literal.overflows

/-- How many levels of selection sets may stand below that of a definition. -/
def maxNesting : Nat := 64

mutual

/-- The first fault of a selection when `levels` more selection sets may be nested. -/
def Selection.fault? (levels : Nat) : Selection → Option ParseFault
  | .field head nested =>
    (overflowFault (fieldsOverflow head.arguments || directivesOverflow head.directives)).or
      (nestedFault? levels nested)
  | .spread _ _ directives => overflowFault (directivesOverflow directives)
  | .inline _ _ directives nested =>
    (overflowFault (directivesOverflow directives)).or (nestedFault? levels nested)

/-- The first fault of a nested selection set; an empty one stands for none at all. -/
def nestedFault? (levels : Nat) : List Selection → Option ParseFault
  | [] => none
  | s :: rest =>
    match levels with
    | 0 => some .tooDeep
    | levels + 1 => (s.fault? levels).or (selectionsFault? levels rest)

/-- The first fault of selections in a row. -/
def selectionsFault? (levels : Nat) : List Selection → Option ParseFault
  | [] => none
  | s :: rest => (s.fault? levels).or (selectionsFault? levels rest)

end

/-- The first fault of a definition, in the order of its text. -/
def Definition.fault? : Definition → Option ParseFault
  | .operation op =>
    (overflowFault
        (op.definitions.any VariableDefinition.overflows || directivesOverflow op.directives)).or
      (selectionsFault? maxNesting op.selections)
  | .fragment f =>
    (overflowFault (directivesOverflow f.directives)).or (selectionsFault? maxNesting f.selections)

/-! ## Names -/

/-- The document with one more operation. An operation without a name stands alone. -/
def Document.addOperation (d : Document) (op : Operation) : Except ParseFault Document :=
  match op.name with
  | none =>
    if d.operations.isEmpty then .ok { d with operations := [op] } else .error .multipleOperations
  | some name =>
    if d.operations.any (·.name.isNone) then .error .multipleOperations
    else if d.operations.any (·.name == some name) then .error (.operationDuplicated name)
    else .ok { d with operations := d.operations ++ [op] }

/-- The document with one more fragment. -/
def Document.addFragment (d : Document) (f : Fragment) : Except ParseFault Document :=
  if d.fragments.any (·.name == f.name) then .error (.fragmentDuplicated f.name)
  else .ok { d with fragments := d.fragments ++ [f] }

/-- The document with one more definition. -/
def Document.add (d : Document) : Definition → Except ParseFault Document
  | .operation op => d.addOperation op
  | .fragment f => d.addFragment f

/-- The document with these definitions. -/
def Document.ofDefinitions (defs : List Definition) : Except ParseFault Document := do
  let d ← defs.foldlM Document.add ⟨[], []⟩
  if d.operations.isEmpty then throw .missingOperation else return d

/-- The document that a text denotes. -/
def Document.parse (text : String) : Except ParseFault Document :=
  match Parser.document (locate text) with
  | none => .error .malformed
  | some (defs, _) =>
    match defs.findSome? Definition.fault? with
    | some fault => .error fault
    | none => ofDefinitions defs

end MutationInput.Tree
