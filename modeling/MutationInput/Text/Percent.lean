import MutationInput.Text.Escape

/-!
# Percent signs

In an address a byte is written as a percent sign and two hexadecimal digits. A percent sign that
no two such digits follow stands for itself.
-/
namespace MutationInput.Text

/-- A byte as a percent sign and two hexadecimal digits. -/
def percentByte (b : UInt8) : List Char :=
  let digit (n : Nat) : Char := (Nat.digitChar n).toUpper
  ['%', digit (b.toNat / 16), digit (b.toNat % 16)]

/-- A character that stands for itself or is written by its bytes. -/
def percentEncode (mustEncode : Char → Bool) (c : Char) : List Char :=
  if c.toNat < 0x20 || 0x7E < c.toNat || mustEncode c then
    (String.utf8EncodeChar c).flatMap percentByte
  else [c]

/-- The byte that two hexadecimal digits spell at the start. -/
def hexByte? : List Char → Option UInt8
  | a :: b :: _ => do return UInt8.ofNat ((← hexDigit? a) * 16 + (← hexDigit? b))
  | _ => none

/-- The bytes that are written behind `skip` characters, with and without percent signs. -/
def percentDecodeFrom : Nat → List Char → List UInt8
  | _, [] => []
  | skip + 1, _ :: rest => percentDecodeFrom skip rest
  | 0, c :: rest =>
    match if c = '%' then hexByte? rest else none with
    | some b => b :: percentDecodeFrom 2 rest
    | none => String.utf8EncodeChar c ++ percentDecodeFrom 0 rest

/-- The bytes that are written with and without percent signs. -/
def percentDecode (cs : List Char) : List UInt8 :=
  percentDecodeFrom 0 cs

end MutationInput.Text
