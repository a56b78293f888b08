import MutationInput.Http.Header
import MutationInput.Http.Status
import MutationInput.Number

/-!
# The head of a response

A head is a status line, fields and an empty line. A line ends with a line feed, before which a
carriage return is left out. `Head.read?` gives the head at the start of a byte sequence and what
follows it, and nothing if the bytes end inside the head or are not one; `Head.readFinal?` passes
over the heads that only tell of another response to come.
-/
namespace MutationInput.Http

/-- The version, the status and the fields of a response. -/
structure Head where
  /-- Whether the version is 1.1, which knows transfer codings, and not 1.0. -/
  knowsCodings : Bool
  status : Nat
  /-- The names in lower case and the values, in order; a name may occur repeatedly. -/
  fields : List (String × String)
  deriving DecidableEq, Repr

namespace Head

/-- The greatest number of fields. -/
def maxFields : Nat := 100

/-- A line with one character for each byte. -/
def lineText (bytes : List UInt8) : String :=
  String.ofList (bytes.map fun b => Char.ofNat b.toNat)

/-- The first line, and what follows it. -/
def line? (bytes : List UInt8) : Option (List UInt8 × List UInt8) :=
  match bytes.dropWhile (· != 10) with
  | [] => none
  | _ :: rest =>
    let line := bytes.takeWhile (· != 10)
    some (if line.getLast? = some 13 then line.dropLast else line, rest)

/-- What follows the empty lines at the start. -/
def skipEmptyLines : List UInt8 → List UInt8
  | [] => []
  | b :: rest =>
    if b = 10 ∨ (b = 13 ∧ rest.head? = some 10) then skipEmptyLines rest else b :: rest

/-- The name and the value of a field. The colon directly follows the name. -/
def field? (line : List UInt8) : Option (String × String) := do
  let (name, value) ← Text.splitFirst? ':' (lineText line)
  let name ← headerName? name
  if isHeaderValue value then some (name, receivedValue value) else none

/-- The fields up to an empty line, and what follows that. There may be `limit` of them. -/
def fields? : Nat → List UInt8 → Option (List (String × String) × List UInt8)
  | limit, bytes => do
    let (line, rest) ← line? bytes
    if line.isEmpty then return ([], rest)
    match limit with
    | 0 => none
    | limit + 1 =>
      let field ← field? line
      let (more, rest) ← fields? limit rest
      return (field :: more, rest)

/-- Whether version 1.1 is told, and the status. The reason may be left out. -/
def status? (line : List UInt8) : Option (Bool × Nat) :=
  match (lineText line).toList with
  | 'H' :: 'T' :: 'T' :: 'P' :: '/' :: '1' :: '.' :: minor :: ' ' :: a :: b :: c :: reason =>
    let status := Numeral.value [a, b, c]
    if (minor = '0' ∨ minor = '1') ∧ [a, b, c].all Char.isDigit ∧ 100 ≤ status ∧
        (reason = [] ∨ reason.head? = some ' ') ∧ reason.all isValueChar then
      some (minor == '1', status)
    else none
  | _ => none

/-- The head at the start of a byte sequence, and what follows it. -/
def read? (bytes : List UInt8) : Option (Head × List UInt8) := do
  let (line, rest) ← line? (skipEmptyLines bytes)
  let (knowsCodings, status) ← status? line
  let (fields, rest) ← fields? maxFields rest
  return (⟨knowsCodings, status, fields⟩, rest)

/-- The first head that belongs to a final response, and what follows it. `fuel` bounds the number
of heads; the number of bytes is enough. -/
def readFinalFrom? : Nat → List UInt8 → Option (Head × List UInt8)
  | 0, _ => none
  | fuel + 1, bytes => do
    let (head, rest) ← read? bytes
    if isInterim head.status then readFinalFrom? fuel rest else return (head, rest)

/-- The first head that belongs to a final response, and what follows it. -/
def readFinal? (bytes : List UInt8) : Option (Head × List UInt8) :=
  readFinalFrom? bytes.length bytes

/-- The values of the fields of one name. -/
def values (h : Head) (name : String) : List String :=
  (h.fields.filter fun f => f.1 == name).map Prod.snd

end Head

end MutationInput.Http
