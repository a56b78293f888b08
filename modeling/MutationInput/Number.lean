import MutationInput.Binary64.Shortest

/-!
# Numbers as written

A numeral without fraction and exponent denotes an integer when its value fits 64 bits, signed or
unsigned; every other numeral denotes a binary64 number, and so does `-0`, which keeps its sign
that way. The digits of a numeral are gathered in 64 bits: from the first digit that does not fit,
digits before the point only count towards the exponent and digits after it are dropped.
-/
namespace MutationInput

/-- A number: an integer of 64 bits, signed or unsigned, or a binary64 number. -/
inductive Number where
  | integer (n : Int)
  | float (x : Binary64)
  deriving DecidableEq, Repr

namespace Number

/-- One more than the greatest integer of 64 bits with a sign. -/
def signedBound : Nat := 0x8000000000000000

/-- The number as an integer of 64 bits with a sign, if it is one. -/
def toSigned? : Number → Option Int
  | .integer n => if -signedBound ≤ n ∧ n < signedBound then some n else none
  | .float _ => none

/-- The number as a float, which for an integer is the nearest one. -/
def toFloat? : Number → Option Binary64
  | .integer n => some (Binary64.ofInt n)
  | .float x => some x

/-- Numerical equality within a kind; an integer and a float are never equal. -/
def same : Number → Number → Bool
  | .integer m, .integer n => m == n
  | .float x, .float y => x.same y
  | _, _ => false

/-- The text of a number: an integer in decimal, a float by its shortest digits. -/
def text : Number → List Char
  | .integer (.ofNat n) => Nat.toDigits 10 n
  | .integer (.negSucc n) => '-' :: Nat.toDigits 10 (n + 1)
  | .float x => x.text

end Number

/-- A numeral, taken apart: a sign, the digits before the point, those after it if there is a
point, and the sign and digits of the exponent if there is one. -/
structure Numeral where
  negative : Bool
  whole : List Char
  fraction : Option (List Char)
  exponent : Option (Bool × List Char)
  deriving DecidableEq, Repr

namespace Numeral

/-- The value of a decimal digit. -/
def digit (c : Char) : Nat :=
  c.toNat - '0'.toNat

/-- The value of decimal digits. -/
def value (ds : List Char) : Nat :=
  ds.foldl (fun n c => n * 10 + digit c) 0

/-- A significand with as many further digits as fit in 64 bits, and the digits left over. -/
def absorb : Nat → List Char → Nat × List Char
  | n, [] => (n, [])
  | n, c :: ds =>
    let n' := n * 10 + digit c
    if n' < UInt64.size then absorb n' ds else (n, c :: ds)

/-- The exponent written in a numeral, zero if there is none. -/
def scale (t : Numeral) : Int :=
  match t.exponent with
  | none => 0
  | some (false, ds) => value ds
  | some (true, ds) => -(value ds)

/-- The magnitude of a numeral read as a float: the significand that was gathered, scaled by the
written exponent, the digits given up before the point and those gathered after it. -/
def magnitude (t : Numeral) : Binary64 :=
  let (n, surplus) := absorb 0 t.whole
  let fraction := t.fraction.getD []
  let (n, dropped) := absorb n fraction
  Binary64.ofScientific n (t.scale + surplus.length - (fraction.length - dropped.length : Nat))

/-- The number that a numeral denotes as a float. -/
def toFloat (t : Numeral) : Binary64 :=
  if t.negative then t.magnitude.negate else t.magnitude

/-- The integer that a numeral denotes, if it is one of 64 bits and not a negative zero. -/
def toInteger? (t : Numeral) : Option Int :=
  if t.fraction.isNone && t.exponent.isNone then
    let n := value t.whole
    if t.negative then
      if 0 < n ∧ n ≤ Number.signedBound then some (-n) else none
    else if n < UInt64.size then some n else none
  else none

/-- The number that a numeral denotes; a magnitude beyond binary64 denotes an infinite float. -/
def toNumber (t : Numeral) : Number :=
  match t.toInteger? with
  | some n => .integer n
  | none => .float t.toFloat

end Numeral

namespace Number

/-- Whether the number is the infinite stand-in for a magnitude beyond binary64. -/
def overflows : Number → Bool
  | .integer _ => false
  | .float x => !x.isFinite

end Number

end MutationInput
