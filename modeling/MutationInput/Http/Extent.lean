import MutationInput.Http.Chunk

/-!
# Where a body ends

A body has an announced length, or consists of chunks, or lasts until the connection is closed.
The fields `transfer-encoding` and `content-length` tell which, the first one with precedence.
-/
namespace MutationInput.Http

/-- How the end of a body is known. -/
inductive Extent where
  | length (n : Nat)
  | chunked
  | untilClose
  deriving DecidableEq, Repr

/-- A number of 64 bits in decimal digits, between blanks. -/
def lengthNumber? (s : String) : Option Nat :=
  let digits := (receivedValue s).toList
  let n := Numeral.value digits
  if !digits.isEmpty && digits.all Char.isDigit && n < UInt64.size then some n else none

/-- The length that values of `content-length` announce: all of them are numbers separated by
commas, and all of the numbers are the same. -/
def announcedLength? (values : List String) : Option Nat :=
  match (values.flatMap (·.splitOn ",")).mapM lengthNumber? with
  | some (n :: ns) => if ns.all (· == n) then some n else none
  | _ => none

/-- Whether the last coding that values of `transfer-encoding` list is the one in chunks. The value
that lists it has to be ASCII throughout. -/
def endsChunked (values : List String) : Bool :=
  match values.getLast? with
  | none => false
  | some value =>
    let coding := (value.splitOn ",").getLast?.getD ""
    value.toList.all (fun c => c.toNat < 0x7F) &&
      Text.lowerAscii (receivedValue coding) == "chunked"

namespace Extent

/-- The greatest length of a body; the two numbers above it stand for the other extents. -/
def maxLength : Nat := UInt64.size - 3

/-- The extent of the body behind a head, unless its fields contradict each other. -/
def ofHead? (h : Head) : Option Extent :=
  if isBodiless h.status then some (.length 0)
  else
    match h.values "transfer-encoding", h.values "content-length" with
    | [], [] => some .untilClose
    | [], lengths => do
      let n ← announcedLength? lengths
      if n ≤ maxLength then some (.length n) else none
    | codings, _ =>
      if !h.knowsCodings then none
      else if endsChunked codings then some .chunked
      else some .untilClose

/-- The bytes of a body among those behind its head, and whether these are all. -/
def cut : Extent → List UInt8 → List UInt8 × Bool
  | .length n, bytes => (bytes.take n, n ≤ bytes.length)
  | .chunked, bytes => Chunk.join bytes
  | .untilClose, bytes => (bytes, true)

/-- A body as it is written. -/
def write : Extent → List UInt8 → List UInt8
  | .length n, bytes => bytes.take n
  | .chunked, bytes => Chunk.encodeBody bytes
  | .untilClose, bytes => bytes

end Extent

end MutationInput.Http
