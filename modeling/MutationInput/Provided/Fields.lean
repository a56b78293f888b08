import MutationInput.Event
import MutationInput.Operation.Basic
import MutationInput.Variables

/-!
# The fields that a value provides

An object literal provides its fields in written order. A variable that is bound to a mapping
provides the names of the mapping in ascending order, as a mapping has no order of its own, and a
variable without binding provides none. Every other value has no fields to list.
-/
namespace MutationInput

/-- How an argument value stands for fields. -/
inductive ArgumentClass where
  /-- By the names of an object literal. -/
  | objectLiteral (fields : Dict Value)
  /-- By the binding of a variable. -/
  | variableReference (name : String)
  /-- Not at all. -/
  | other (v : Value)

/-- The class of a value. -/
def Value.classify : Value → ArgumentClass
  | .object fields => .objectLiteral (Dict.ofList fields)
  | .variable name => .variableReference name
  | v => .other v

/-- A value whose fields were asked for has none to list. It is the value of the variable named, if
one is. -/
structure Unlistable where
  kind : ValueKind
  reference : Option String
  deriving DecidableEq, Repr

/-- The message about a value without fields. -/
def Unlistable.message (e : Unlistable) : String :=
  "Can't list the fields of a " ++ e.kind.word ++ " value."

/-- Names in ascending order. -/
def sortNames (names : List String) : List String :=
  names.mergeSort fun a b => a ≤ b

/-- The names of the fields that a classified value provides. -/
def ArgumentClass.fieldNames (bindings : Variables) :
    ArgumentClass → Logged (Except Unlistable (List String))
  | .objectLiteral fields => .silent (.ok fields.keys)
  | .variableReference name =>
    match bindings.get? name with
    | none => ⟨[.noBinding name], .ok []⟩
    | some b =>
      match b.entries? with
      | some entries => .silent (.ok (sortNames entries.keys))
      | none => .silent (.error ⟨b.kind, some name⟩)
  | .other v => .silent (.error ⟨v.kind, none⟩)

/-- The names of the fields provided in each argument that contributed any. -/
abbrev ProvidedFields := Dict (List String)

namespace ProvidedFields

/-- The names provided in an argument, none if it contributed nothing. -/
def fields (p : ProvidedFields) (argument : String) : List String :=
  (p.get? argument).getD []

/-- Whether a field was provided in an argument. -/
def containsField (p : ProvidedFields) (argument field : String) : Bool :=
  (p.fields argument).contains field

/-- The JSON object of the arguments, each with the array of its names. -/
def toJson (p : ProvidedFields) : Json :=
  .object (p.entries.map fun e => (e.1, .array (e.2.map .string)))

end ProvidedFields

end MutationInput
