import MutationInput.Library
import MutationInput.Text.Blank
import MutationInput.Text.Percent
import MutationInput.Text.Utf8

/-!
# Hosts

A host is named, or given by an address of thirty-two bits or of one hundred and twenty-eight. A
name may be written with percent signs and in any script, and is kept in ASCII and lower case. If
its last part is a number, it has to be an address of thirty-two bits, of which the last part fills
what the others leave. The long addresses stand in brackets: eight groups of sixteen bits, of which
zeros may be left out in one place, and the last two may be written as a short address.
-/
namespace MutationInput.Http

/-- What an address names as its host. -/
inductive Host where
  | domain (name : String)
  | v4 (address : UInt32)
  | v6 (groups : Vector UInt16 8)
  deriving DecidableEq, Repr

namespace Host

/-- The number that digits of a base below seventeen denote; it is zero without any. -/
def number? (base : Nat) (digits : List Char) : Option Nat := do
  let digits ← digits.mapM Text.hexDigit?
  if digits.all (· < base) then some (digits.foldl (fun n d => n * base + d) 0) else none

/-! ## Short addresses -/

/-- The number that a part of a short address denotes: in hexadecimal behind `0x`, in octal behind
another zero, and else in decimal. -/
def partNumber? : List Char → Option Nat
  | [] => none
  | ['0'] => some 0
  | '0' :: c :: digits =>
    if c = 'x' ∨ c = 'X' then number? 16 digits else number? 8 (c :: digits)
  | digits => number? 10 digits

/-- The parts of a name between its points. An empty one at the end does not count. -/
def labels (name : List Char) : List (List Char) :=
  let labels := Text.parts (· == '.') name
  if labels.getLast? = some [] then labels.dropLast else labels

/-- Whether a name can only be a short address: its last part is a number. -/
def endsInNumber (name : List Char) : Bool :=
  match (labels name).getLast? with
  | none => false
  | some last => (!last.isEmpty && last.all Char.isDigit) || (partNumber? last).isSome

/-- The short address of parts: at most four, the last of which fills what is left. -/
def address? (parts : List (List Char)) : Option UInt32 := do
  let numbers ← parts.mapM partNumber?
  let last ← numbers.getLast?
  let bytes := numbers.dropLast
  let limit := 1 <<< (8 * (4 - bytes.length))
  if numbers.length ≤ 4 && bytes.all (· < 256) && last < limit then
    some (UInt32.ofNat (bytes.foldl (fun n b => n * 256 + b) 0 * limit + last))
  else none

/-! ## Long addresses -/

/-- A group of one to four hexadecimal digits. -/
def group? (digits : List Char) : Option UInt16 :=
  if digits.isEmpty || 4 < digits.length then none else (number? 16 digits).map UInt16.ofNat

/-- One of four bytes in decimal, without zeros at its start. -/
def byte? (digits : List Char) : Option Nat := do
  let n ← number? 10 digits
  if digits.isEmpty || (1 < digits.length && digits.head? = some '0') || 256 ≤ n then none
  else some n

/-- The two groups that four bytes between points make. -/
def bytePairs? (cs : List Char) : Option (List UInt16) := do
  match ← (Text.parts (· == '.') cs).mapM byte? with
  | [a, b, c, d] => some [UInt16.ofNat (a * 256 + b), UInt16.ofNat (c * 256 + d)]
  | _ => none

/-- The groups that are written in parts, of which the last one may hold two if `pairs` says so. -/
def groups? (pairs : Bool) : List (List Char) → Option (List UInt16)
  | [] => some []
  | [last] =>
    match group? last with
    | some g => some [g]
    | none => if pairs then bytePairs? last else none
  | part :: rest => do return (← group? part) :: (← groups? pairs rest)

/-- The groups between colons; there are none in an empty text. -/
def groupList? (pairs : Bool) (cs : List Char) : Option (List UInt16) :=
  if cs.isEmpty then some [] else groups? pairs (Text.parts (· == ':') cs)

/-- What stands before the first two colons in a row, and behind them if there are any. -/
def splitGap : List Char → List Char × Option (List Char)
  | [] => ([], none)
  | c :: cs =>
    if c = ':' ∧ cs.head? = some ':' then ([], some (cs.drop 1))
    else
      let (before, after) := splitGap cs
      (c :: before, after)

/-- The groups of a long address. Two colons stand for the zeros that are missing, at least one. -/
def allGroups? (cs : List Char) : Option (List UInt16) := do
  match splitGap cs with
  | (all, none) => groupList? true all
  | (before, some after) =>
    let before ← groupList? false before
    let after ← groupList? true after
    let given := before.length + after.length
    if given < 8 then some (before ++ List.replicate (8 - given) 0 ++ after) else none

/-- The long address that stands between brackets. -/
def long? (cs : List Char) : Option Host := do
  let groups ← allGroups? cs
  if h : groups.length = 8 then some (.v6 ⟨groups.toArray, h⟩) else none

/-! ## Names -/

/-- Whether a character may stand in a name. -/
def isNameChar (c : Char) : Bool :=
  c.isAlphanum || "!$&'()*+,-.;=_~".toList.contains c

/-- Whether a name is in ASCII and no part of it is encoded. -/
def isPlain (name : String) : Bool :=
  name.toList.all (fun c => c.toNat < 0x80) &&
    (Text.parts (· == '.') name.toList).all fun part =>
      (part.map Char.toLower).take 4 != ['x', 'n', '-', '-']

/-- The name in ASCII and lower case that is written with and without percent signs. -/
def readName? (lib : Library) (cs : List Char) : Option String := do
  let written ← Text.decode? (Text.percentDecode cs)
  if isPlain written then some (Text.lowerAscii written) else lib.hostName? written

/-- The host that is written without brackets. -/
def named? (lib : Library) (cs : List Char) : Option Host := do
  let name ← readName? lib cs
  if name.isEmpty || !name.toList.all isNameChar then none
  else if endsInNumber name.toList then (address? (labels name.toList)).map .v4
  else some (.domain name)

/-! ## Texts -/

/-- Groups in hexadecimal with colons between them. -/
def groupsText (groups : List UInt16) : String :=
  ":".intercalate (groups.map fun g => String.ofList (Nat.toDigits 16 g.toNat))

/-- How many zeros there are at the start. -/
def leadingZeros (groups : List UInt16) : Nat :=
  (groups.takeWhile (· == 0)).length

/-- Where the first of the longest runs of zeros begins, and how long it is. -/
def longestRun (groups : List UInt16) : Nat × Nat :=
  (List.range groups.length).foldl
    (fun best start =>
      let length := leadingZeros (groups.drop start)
      if best.2 < length then (start, length) else best)
    (0, 0)

/-- A long address with two colons for its longest run of zeros, if that has more than one. -/
def longText (groups : List UInt16) : String :=
  let (start, length) := longestRun groups
  if length < 2 then groupsText groups
  else groupsText (groups.take start) ++ "::" ++ groupsText (groups.drop (start + length))

/-- The four bytes of a short address with points between them. -/
def shortText (address : UInt32) : String :=
  let n := address.toNat
  ".".intercalate ([n / 0x1000000, n / 0x10000 % 0x100, n / 0x100 % 0x100, n % 0x100].map toString)

/-- A host as it is written. -/
def text : Host → String
  | .domain name => name
  | .v4 address => shortText address
  | .v6 groups => "[" ++ longText groups.toList ++ "]"

end Host

end MutationInput.Http
