import MutationInput.Binary64.Basic

/-!
# The shortest decimal of a binary64 number

`shortest` finds the decimal with the fewest digits that reads back as a given finite number, and
among those the nearest to it; of two equally near ones it takes the one with the even last digit.
A decimal reads back as the number when it lies between the midpoints to the two neighbouring
numbers, the midpoints included if the significand is even. `text` lays the digits out.
-/
namespace MutationInput.Binary64

/-- The decimal `digits * 10 ^ exponent`. -/
structure Decimal where
  digits : Nat
  exponent : Int
  deriving DecidableEq, Repr

/-- A positive number and the interval of reals that round to it, over a common denominator. -/
structure Interval where
  /-- The numerator of the number. -/
  value : Nat
  /-- The numerator of the lower midpoint. -/
  low : Nat
  /-- The numerator of the upper midpoint. -/
  high : Nat
  /-- The common denominator. -/
  den : Nat
  /-- Whether the midpoints round to the number. -/
  closed : Bool

/-- The interval of a finite positive number. Below a power of two the gap is half as wide. -/
def interval (x : Binary64) : Interval :=
  let m := x.significand
  let unit := Nat.pow 2 x.scale
  let below := if m = Nat.pow 2 52 ∧ 0 < x.scale then 1 else 2
  { value := 4 * m * unit
    low := (4 * m - below) * unit
    high := (4 * m + 2) * unit
    den := Nat.pow 2 1076
    closed := m % 2 == 0 }

namespace Interval

/-- Whether the quotient `num / den` of the interval's scale rounds to its number. -/
def contains (i : Interval) (num den : Nat) : Bool :=
  if i.closed then i.low * den ≤ num * i.den && num * i.den ≤ i.high * den
  else i.low * den < num * i.den && num * i.den < i.high * den

/-- The multiple of `10 ^ e` in the interval that is nearest to its number, if one is in it. -/
def nearest? (i : Interval) (e : Int) : Option Nat :=
  let up := Nat.pow 10 e.toNat
  let down := Nat.pow 10 (-e).toNat
  let n := i.value * down / (i.den * up)
  let below := i.value * down - n * i.den * up
  let above := (n + 1) * i.den * up - i.value * down
  let belowFits := i.contains (n * up) down
  let aboveFits := i.contains ((n + 1) * up) down
  if belowFits && aboveFits then
    if below < above || (below == above && n % 2 == 0) then some n else some (n + 1)
  else if belowFits then some n
  else if aboveFits then some (n + 1)
  else none

/-- The nearest multiple of the greatest power of ten, from `10 ^ e` down, that has one in the
interval; at most `tries` powers are tried. -/
def search (i : Interval) : Nat → Int → Decimal
  | 0, e => ⟨i.value * Nat.pow 10 (-e).toNat / (i.den * Nat.pow 10 e.toNat), e⟩
  | tries + 1, e =>
    match i.nearest? e with
    | some n => ⟨n, e⟩
    | none => i.search tries (e - 1)

end Interval

/-- The floor of the decimal logarithm of a positive quotient, from a first guess that is too
high by at most `tries`. -/
def log10Ratio (num den : Nat) : Nat → Int → Int
  | 0, e => e
  | tries + 1, e =>
    if den * Nat.pow 10 e.toNat ≤ num * Nat.pow 10 (-e).toNat then e
    else log10Ratio num den tries (e - 1)

/-- The shortest decimal of a finite positive number. Seventeen digits always suffice. -/
def shortest (x : Binary64) : Decimal :=
  let i := x.interval
  let guess := log2Ratio i.value i.den * 30103 / 100000 + 1
  i.search 17 (log10Ratio i.value i.den 4 guess)

/-- Digits laid out around the point: positional while the exponent of the first digit lies
between -5 and 15, with a digit after the point always; otherwise one digit before the point, no
empty fraction, and a signed exponent. -/
def layout (digits : List Char) (first : Int) : List Char :=
  if 0 ≤ first ∧ first ≤ 15 then
    let whole := first.toNat + 1
    let padded := digits ++ List.replicate (whole - digits.length) '0'
    let fraction := padded.drop whole
    padded.take whole ++ '.' :: (if fraction.isEmpty then ['0'] else fraction)
  else if -5 ≤ first ∧ first < 0 then
    ['0', '.'] ++ List.replicate (-first - 1).toNat '0' ++ digits
  else
    let fraction := digits.drop 1
    let sign := if 0 ≤ first then '+' else '-'
    digits.take 1 ++ (if fraction.isEmpty then [] else '.' :: fraction) ++
      'e' :: sign :: Nat.toDigits 10 first.natAbs

/-- The decimal digits of a number without the zeros at its end, and how many those are. -/
def trimZeros (digits : List Char) : List Char :=
  (digits.reverse.dropWhile (· == '0')).reverse

/-- The text of a finite number. -/
def text (x : Binary64) : List Char :=
  let sign := if x.isNegative then ['-'] else []
  if x.isZero then sign ++ ['0', '.', '0']
  else
    let d := x.shortest
    let digits := Nat.toDigits 10 d.digits
    sign ++ layout (trimZeros digits) (d.exponent + digits.length - 1)

end MutationInput.Binary64
