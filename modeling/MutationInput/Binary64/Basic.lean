/-!
# Binary64 numbers

A number of the binary64 interchange format is its 64-bit word. Rounding is from an exact
quotient of natural numbers to the nearest word, a tie going to the word with an even significand;
products and quotients are computed exactly and rounded once. Everything is natural-number
arithmetic, so that it can be reasoned about; powers are written as `Nat.pow`, whose meaning no
further import can change.
-/
namespace MutationInput

/-- A binary64 number, by its bit pattern. -/
structure Binary64 where
  bits : UInt64
  deriving DecidableEq, Repr

namespace Binary64

/-- The word of positive infinity: the exponent field full, the fraction empty. -/
def infinityWord : Nat := 0x7FF * Nat.pow 2 52

/-- Whether the sign bit is set. -/
def isNegative (x : Binary64) : Bool :=
  Nat.pow 2 63 ≤ x.bits.toNat

/-- The bit pattern without its sign bit; on positive numbers it grows with the number. -/
def magnitudeWord (x : Binary64) : Nat :=
  x.bits.toNat % Nat.pow 2 63

/-- Whether the pattern is that of no number. -/
def isNaN (x : Binary64) : Bool :=
  infinityWord < x.magnitudeWord

/-- Whether the pattern is that of a number and not of an infinity. -/
def isFinite (x : Binary64) : Bool :=
  x.magnitudeWord < infinityWord

/-- Whether the number is zero, of either sign. -/
def isZero (x : Binary64) : Bool :=
  x.magnitudeWord == 0

/-- Numerical equality: a NaN differs from everything, and the two zeros are equal. -/
def same (x y : Binary64) : Bool :=
  !x.isNaN && !y.isNaN && (x == y || (x.isZero && y.isZero))

/-- The word with the given sign and magnitude. -/
def ofMagnitude (negative : Bool) (magnitude : Nat) : Binary64 :=
  ⟨UInt64.ofNat (magnitude + if negative then Nat.pow 2 63 else 0)⟩

/-- The number with its sign turned round. -/
def negate (x : Binary64) : Binary64 :=
  ofMagnitude (!x.isNegative) x.magnitudeWord

/-- The integer factor of a finite number, which is this times a power of two. -/
def significand (x : Binary64) : Nat :=
  if x.magnitudeWord < Nat.pow 2 52 then x.magnitudeWord
  else Nat.pow 2 52 + x.magnitudeWord % Nat.pow 2 52

/-- The power of two that `significand` is multiplied by, less the least one, `2 ^ (-1074)`. -/
def scale (x : Binary64) : Nat :=
  x.magnitudeWord / Nat.pow 2 52 - 1

/-- The quotient of two numbers rounded to the nearest integer, a half to the even one. -/
def divNearest (num den : Nat) : Nat :=
  let q := num / den
  let r := num % den
  if 2 * r > den || (2 * r == den && q % 2 == 1) then q + 1 else q

/-- The floor of the binary logarithm of a positive quotient. -/
def log2Ratio (num den : Nat) : Int :=
  let guess : Int := (num.log2 : Int) - den.log2
  let fits :=
    if 0 ≤ guess then den * Nat.pow 2 guess.toNat ≤ num
    else den ≤ num * Nat.pow 2 (-guess).toNat
  if fits then guess else guess - 1

/-- The magnitude of the number nearest to `num / den`. The unit in the last place is
`2 ^ (s - 1074)`, and `s * 2 ^ 52 + m` is the word of `m` such units, whether they are normal,
subnormal or just carried into the next binade. -/
def roundMagnitude (num den : Nat) : Nat :=
  if num = 0 then 0
  else
    let s := (log2Ratio num den + 1022).toNat
    let m := if s ≤ 1074 then divNearest (num * Nat.pow 2 (1074 - s)) den
      else divNearest num (den * Nat.pow 2 (s - 1074))
    min (s * Nat.pow 2 52 + m) infinityWord

/-- The number nearest to `num / den`. -/
def ofRatio (num den : Nat) : Binary64 :=
  ofMagnitude false (roundMagnitude num den)

/-- The number nearest to a natural number. -/
def ofNat (n : Nat) : Binary64 :=
  ofRatio n 1

/-- The number nearest to an integer. -/
def ofInt (n : Int) : Binary64 :=
  if n < 0 then (ofNat n.natAbs).negate else ofNat n.natAbs

/-- The product of two finite numbers, rounded once. -/
def mul (x y : Binary64) : Binary64 :=
  ofMagnitude (x.isNegative != y.isNegative)
    (roundMagnitude (x.significand * y.significand * Nat.pow 2 (x.scale + y.scale))
      (Nat.pow 2 2148))

/-- The quotient of two finite numbers, the second not zero, rounded once. -/
def div (x y : Binary64) : Binary64 :=
  ofMagnitude (x.isNegative != y.isNegative)
    (roundMagnitude (x.significand * Nat.pow 2 x.scale) (y.significand * Nat.pow 2 y.scale))

/-- The power of ten nearest to `10 ^ k`. -/
def powerOfTen (k : Nat) : Binary64 :=
  ofNat (Nat.pow 10 k)

/-- The number `n` times ten to the power `e`, computed from the nearest numbers to `n` and to the
power: one product for a positive exponent, one quotient for a negative one, and for exponents
below -308 first a quotient by `10 ^ 308`. A nonzero number with an exponent above 308 is
infinite. -/
def ofScientific (n : Nat) (e : Int) : Binary64 :=
  let x := ofNat n
  if n = 0 then x
  else if 308 < e then ofMagnitude false infinityWord
  else if 0 ≤ e then x.mul (powerOfTen e.toNat)
  else if -308 ≤ e then x.div (powerOfTen (-e).toNat)
  else if -616 ≤ e then (x.div (powerOfTen 308)).div (powerOfTen (-e - 308).toNat)
  else ofMagnitude false 0

end Binary64

end MutationInput
