import MutationInput.Dict
import MutationInput.Json.Decode
import MutationInput.Value

/-!
# Variables

The values that a request binds to variables. A binding is a scalar, a list or a mapping, and a
mapping has no order of its own: two mappings are equal when each name has equal bindings in both.
Bindings and JSON values stand for one another (`ofJson`, `toJson`). The variables themselves keep
the order in which they were first bound.
-/
namespace MutationInput

/-- A bound value without parts. -/
inductive Scalar where
  | null
  | boolean (b : Bool)
  | number (n : Number)
  | string (s : String)
  deriving DecidableEq, Repr, Inhabited

namespace Scalar

/-- The kind of a scalar. -/
def kind : Scalar → ValueKind
  | .null => .null
  | .boolean _ => .boolean
  | .number _ => .number
  | .string _ => .string

/-- Whether two scalars are equal, floats numerically. -/
def same : Scalar → Scalar → Bool
  | .number a, .number b => a.same b
  | a, b => a == b

end Scalar

/-- A bound value. -/
inductive Binding where
  | scalar (s : Scalar)
  | list (items : List Binding)
  | mapping (entries : List (String × Binding))
  deriving Inhabited

namespace Binding

/-- The kind of a bound value. -/
def kind : Binding → ValueKind
  | .scalar s => s.kind
  | .list _ => .list
  | .mapping _ => .object

/-- The entries of a mapping. -/
def entries? : Binding → Option (Dict Binding)
  | .mapping entries => some (Dict.ofList entries)
  | _ => none

mutual

/-- The binding that a JSON value stands for. -/
def ofJson : Json → Binding
  | .null => .scalar .null
  | .bool b => .scalar (.boolean b)
  | .number n => .scalar (.number n)
  | .string s => .scalar (.string s)
  | .array items => .list (ofItems items)
  | .object members => .mapping (ofMembers members)

/-- The bindings that JSON values stand for. -/
def ofItems : List Json → List Binding
  | [] => []
  | j :: items => ofJson j :: ofItems items

/-- The named bindings that members stand for. -/
def ofMembers : List (String × Json) → List (String × Binding)
  | [] => []
  | (k, j) :: members => (k, ofJson j) :: ofMembers members

end

mutual

/-- The JSON value of a binding. -/
def toJson : Binding → Json
  | .scalar .null => .null
  | .scalar (.boolean b) => .bool b
  | .scalar (.number n) => .number n
  | .scalar (.string s) => .string s
  | .list items => .array (toItems items)
  | .mapping entries => .object (toMembers entries)

/-- The JSON values of bindings. -/
def toItems : List Binding → List Json
  | [] => []
  | b :: items => toJson b :: toItems items

/-- The members of named bindings. -/
def toMembers : List (String × Binding) → List (String × Json)
  | [] => []
  | (k, b) :: entries => (k, toJson b) :: toMembers entries

end

mutual

/-- Whether two bindings are equal, floats numerically and mappings in whatever order. -/
def same : Binding → Binding → Bool
  | .scalar a, .scalar b => a.same b
  | .list a, .list b => sameItems a b
  | .mapping a, .mapping b => a.length == b.length && sameEntries a b
  | _, _ => false

/-- Whether two lists have equal bindings at every position. -/
def sameItems : List Binding → List Binding → Bool
  | [], [] => true
  | a :: as, b :: bs => same a b && sameItems as bs
  | _, _ => false

/-- Whether every named binding has an equal one of its name in the second list. -/
def sameEntries : List (String × Binding) → List (String × Binding) → Bool
  | [], _ => true
  | (k, a) :: as, bs =>
    (match bs.lookup k with
    | some b => same a b
    | none => false) && sameEntries as bs

end

/-- The decoder of a binding, which any JSON value stands for. -/
def decoder : Json.Decoder Binding :=
  Json.Decoder.value.map ofJson

end Binding

/-- The bindings of variables, in the order in which they were first bound. -/
abbrev Variables := Dict Binding

namespace Variables

/-- Whether two sets of variables bind the same names to equal values, in whatever order. -/
def same (a b : Variables) : Bool :=
  Dict.same Binding.same a b

/-- The decoder of variables: an object, each of whose names is bound once and to its last value. -/
def decoder : Json.Decoder Variables :=
  Binding.decoder.entries.map Dict.ofList

/-- The variables that a JSON value binds. -/
def ofJson (j : Json) : Except Json.Mismatch Variables :=
  decoder.ofJson j

/-- The variables that a text binds. -/
def parse (text : String) : Except Json.Fault Variables :=
  decoder.parse (Text.ofString text)

/-- The JSON object of variables, in their order. -/
def toJson (v : Variables) : Json :=
  .object (Binding.toMembers v.entries)

end Variables

end MutationInput
