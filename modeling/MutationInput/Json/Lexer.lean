import MutationInput.Number
import MutationInput.Text.Escape
import MutationInput.Text.Utf8

/-!
# The tokens of JSON text

The text of a JSON value may come from bytes that are not UTF-8 throughout, so it is a list of
pieces. Every function here reads from the front of such a list and returns the rest, or a fault:
the text ends too early, or something stands where it cannot. `scanString` runs a machine that
takes one piece at a time; `readNumeral` reads digits in maximal runs.
-/
namespace MutationInput.Json

open Text (Piece)

/-- Why reading JSON text failed. -/
inductive Fault where
  /-- The text is not JSON, or nests too deep, or holds a number too large. -/
  | malformed
  /-- The text ends inside a value. -/
  | truncated
  /-- A value is not of the shape that is wanted. -/
  | mismatch
  deriving DecidableEq, Repr

/-- The text that remains to be read. -/
abbrev Source := List Piece

/-- Whether a character is a blank between tokens. -/
def isGap (c : Char) : Bool :=
  c == ' ' || c == '\n' || c == '\t' || c == '\r'

/-- The text from its first token on. -/
def skipGap : Source → Source
  | .char c :: rest => if isGap c then skipGap rest else .char c :: rest
  | s => s

/-- The text after the characters of a word, which have to follow. -/
def expect : List Char → Source → Except Fault Source
  | [], s => .ok s
  | _ :: _, [] => .error .truncated
  | c :: word, p :: rest => if p = .char c then expect word rest else .error .malformed

/-! ## Numbers -/

/-- The digits at the front of a text, and the rest. -/
def spanDigits : Source → List Char × Source
  | .char c :: rest =>
    if c.isDigit then
      let (ds, rest') := spanDigits rest
      (c :: ds, rest')
    else ([], .char c :: rest)
  | s => ([], s)

/-- The digits at the front of a text, at least one; `ended` is the fault when the text ends. -/
def digits1 (ended : Fault) (s : Source) : Except Fault (List Char × Source) :=
  match spanDigits s with
  | ([], []) => .error ended
  | ([], _) => .error .malformed
  | r => .ok r

/-- The digits of a whole number: a zero alone, or digits that do not begin with zero. -/
def wholePart (ended : Fault) (s : Source) : Except Fault (List Char × Source) :=
  match digits1 ended s with
  | .ok ('0' :: _ :: _, _) => .error .malformed
  | r => r

/-- The digits after a point, if there is a point. -/
def fractionPart (ended : Fault) : Source → Except Fault (Option (List Char) × Source)
  | .char '.' :: rest => (digits1 ended rest).map fun r => (some r.1, r.2)
  | s => .ok (none, s)

/-- The sign and digits of an exponent, if there is one. -/
def exponentPart (ended : Fault) : Source → Except Fault (Option (Bool × List Char) × Source)
  | .char c :: rest =>
    if c = 'e' ∨ c = 'E' then
      let (negative, rest) :=
        match rest with
        | .char '+' :: rest => (false, rest)
        | .char '-' :: rest => (true, rest)
        | rest => (false, rest)
      (digits1 ended rest).map fun r => (some (negative, r.1), r.2)
    else .ok (none, .char c :: rest)
  | s => .ok (none, s)

/-- The numeral at the front of a text, its sign already read. -/
def readNumeral (ended : Fault) (negative : Bool) (s : Source) :
    Except Fault (Numeral × Source) := do
  let (whole, s) ← wholePart ended s
  let (fraction, s) ← fractionPart ended s
  let (exponent, s) ← exponentPart ended s
  return (⟨negative, whole, fraction, exponent⟩, s)

/-- The number at the front of a text, its sign already read; one that is too large is a fault. -/
def readNumber (negative : Bool) (s : Source) : Except Fault (Number × Source) := do
  let (t, s) ← readNumeral .truncated negative s
  if t.toNumber.overflows then throw .malformed else return (t.toNumber, s)

/-! ## Strings -/

/-- The sixteen-bit unit that four pieces spell in hexadecimal. -/
def unit? : List Piece → Option Nat
  | [.char a, .char b, .char c, .char d] => Text.hexUnit? a b c d
  | _ => none

/-- Where the string machine stands. -/
inductive StringState where
  /-- Between characters. -/
  | plain
  /-- After a backslash. -/
  | escape
  /-- Inside the digits of an escaped unit, after the leading surrogate `high` if there is one. -/
  | hex (high : Option Nat) (digits : List Piece)
  /-- After the leading surrogate `high`. -/
  | surrogate (high : Nat)
  /-- After the leading surrogate `high` and a backslash. -/
  | surrogateEscape (high : Nat)
  deriving DecidableEq, Repr

/-- What one piece does to the string machine. -/
inductive StringStep where
  /-- The string is closed. -/
  | close
  /-- The machine moves on, and a piece of the string may be complete. -/
  | next (state : StringState) (out : Option Piece)
  /-- The piece cannot stand here. -/
  | fault
  deriving DecidableEq, Repr

/-- What a complete unit does. Surrogates have to come in pairs, a leading one first; where the
text of the string does not matter (`checked` is false) they may stand alone. -/
def unitStep (checked : Bool) (high : Option Nat) (n : Nat) : StringStep :=
  if !checked then .next .plain none
  else
    match high with
    | none =>
      if 0xDC00 ≤ n ∧ n < 0xE000 then .fault
      else if 0xD800 ≤ n ∧ n < 0xDC00 then .next (.surrogate n) none
      else .next .plain (some (.char (Char.ofNat n)))
    | some high =>
      if 0xDC00 ≤ n ∧ n < 0xE000 then
        .next .plain (some (.char (Char.ofNat ((high - 0xD800) * 0x400 + (n - 0xDC00) + 0x10000))))
      else .fault

/-- One step of the string machine. The digits of a unit are looked at when four bytes are there. -/
def stringStep (checked : Bool) (state : StringState) (p : Piece) : StringStep :=
  match state with
  | .plain =>
    match p with
    | .char '"' => .close
    | .char '\\' => .next .escape none
    | .char c => if c.toNat < 0x20 then .fault else .next .plain (some p)
    | .broken _ => .next .plain (some p)
  | .escape =>
    match p with
    | .char 'u' => .next (.hex none []) none
    | .char c =>
      match Text.unescape? c with
      | some c => .next .plain (some (.char c))
      | none => .fault
    | .broken _ => .fault
  | .hex high digits =>
    let digits := digits ++ [p]
    if Text.totalSize digits < 4 then .next (.hex high digits) none
    else
      match unit? digits with
      | some n => unitStep checked high n
      | none => .fault
  | .surrogate high => if p = .char '\\' then .next (.surrogateEscape high) none else .fault
  | .surrogateEscape high => if p = .char 'u' then .next (.hex (some high) []) none else .fault

/-- The pieces of a string, read up to its closing quote, and the rest of the text. -/
def scanString (checked : Bool) : StringState → Source → Except Fault (List Piece × Source)
  | _, [] => .error .truncated
  | state, p :: rest =>
    match stringStep checked state p with
    | .close => .ok ([], rest)
    | .fault => .error .malformed
    | .next state out => (scanString checked state rest).map fun r => (out.toList ++ r.1, r.2)

/-- The string at the front of a text, its opening quote already read. Broken parts make it
malformed once it is closed. -/
def readString (s : Source) : Except Fault (String × Source) := do
  let (ps, s) ← scanString true .plain s
  match ps.mapM Piece.char? with
  | some cs => return (String.ofList cs, s)
  | none => throw .malformed

/-- The text after a string whose contents do not matter. -/
def skipString (s : Source) : Except Fault Source :=
  (scanString false .plain s).map Prod.snd

end MutationInput.Json
