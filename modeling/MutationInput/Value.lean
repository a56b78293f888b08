import MutationInput.Dict
import MutationInput.Text.Utf8
import MutationInput.Tree.Basic

/-!
# Argument values

The value of an argument as an operation holds it. Integers that fit 64 bits with a sign stay
integers and all other numbers are floats; bytes become the text they decode to leniently. An
object literal is a list of named values in the order in which they were written.
-/
namespace MutationInput

/-- The value of an argument. -/
inductive Value where
  | variable (name : String)
  | int (n : Int)
  | float (x : Binary64)
  | string (s : String)
  | boolean (b : Bool)
  | null
  | enum (name : String)
  | list (items : List Value)
  | object (fields : List (String × Value))
  deriving Inhabited

/-- The kind of an argument value or of the value bound to a variable. -/
inductive ValueKind where
  | boolean
  | enum
  | float
  | int
  | list
  | null
  | number
  | object
  | string
  | variable
  deriving DecidableEq, Repr, Inhabited

/-- The word for a kind of value. -/
def ValueKind.word : ValueKind → String
  | .boolean => "boolean"
  | .enum => "enum"
  | .float => "float"
  | .int => "int"
  | .list => "list"
  | .null => "null"
  | .number => "number"
  | .object => "object"
  | .string => "string"
  | .variable => "variable"

namespace Value

/-- The kind of a value. -/
def kind : Value → ValueKind
  | .variable _ => .variable
  | .int _ => .int
  | .float _ => .float
  | .string _ => .string
  | .boolean _ => .boolean
  | .null => .null
  | .enum _ => .enum
  | .list _ => .list
  | .object _ => .object

/-- The name of a variable reference. -/
def variableName? : Value → Option String
  | .variable name => some name
  | _ => none

/-- The fields of an object literal. -/
def fields? : Value → Option (Dict Value)
  | .object fields => some (Dict.ofList fields)
  | _ => none

/-- The object with these fields, each name at its first position with its last value. -/
def ofFields (fields : List (String × Value)) : Value :=
  .object (Dict.ofList fields).entries

/-- The value of a number: an integer if it fits 64 bits with a sign, and a float otherwise. A
number that were neither would be kept as its text. -/
def ofNumber (n : Number) : Value :=
  match n.toSigned?, n.toFloat? with
  | some i, _ => .int i
  | none, some x => .float x
  | none, none => .string (String.ofList n.text)

mutual

/-- The value of a literal. -/
def ofLiteral : Tree.Literal → Value
  | .variable name => .variable name
  | .number n => ofNumber n
  | .string s => .string s
  | .bytes b => .string (Text.decodeLossy b)
  | .boolean b => .boolean b
  | .null => .null
  | .enum name => .enum name
  | .list items => .list (ofLiterals items)
  | .object fields => .object (ofNamedLiterals fields)

/-- The values of literals. -/
def ofLiterals : List Tree.Literal → List Value
  | [] => []
  | v :: items => ofLiteral v :: ofLiterals items

/-- The values of named literals. -/
def ofNamedLiterals : List (String × Tree.Literal) → List (String × Value)
  | [] => []
  | (k, v) :: fields => (k, ofLiteral v) :: ofNamedLiterals fields

end

mutual

/-- Whether two values are equal, floats numerically and objects in whatever order. -/
def same : Value → Value → Bool
  | .variable a, .variable b => a == b
  | .int a, .int b => a == b
  | .float a, .float b => a.same b
  | .string a, .string b => a == b
  | .boolean a, .boolean b => a == b
  | .null, .null => true
  | .enum a, .enum b => a == b
  | .list a, .list b => sameItems a b
  | .object a, .object b => a.length == b.length && sameFields a b
  | _, _ => false

/-- Whether two lists have equal values at every position. -/
def sameItems : List Value → List Value → Bool
  | [], [] => true
  | a :: as, b :: bs => same a b && sameItems as bs
  | _, _ => false

/-- Whether every named value has an equal one of its name in the second list. -/
def sameFields : List (String × Value) → List (String × Value) → Bool
  | [], _ => true
  | (k, a) :: as, bs =>
    (match bs.lookup k with
    | some b => same a b
    | none => false) && sameFields as bs

end

end Value

end MutationInput
