/-!
# UTF-8, read whole or in pieces

A sequence of bytes splits in one way into characters and *broken* parts, where a broken part is a
maximal run of bytes that begins the encoding of a character and does not finish it, or one byte
that begins none. `pieces` computes this split with a machine that reads one byte at a time.
Strict decoding (`decode?`) accepts exactly the sequences without a broken part; lenient decoding
(`decodeLossy`) writes U+FFFD for each of them.
-/
namespace MutationInput.Text

/-- A part of a byte sequence: a character, or a maximal part that belongs to none. -/
inductive Piece where
  | char (c : Char)
  | broken (bytes : List UInt8)
  deriving DecidableEq, Repr

namespace Piece

/-- The character, unless the piece is broken. -/
def char? : Piece → Option Char
  | .char c => some c
  | .broken _ => none

/-- The character, with U+FFFD in place of a broken part. -/
def orReplacement : Piece → Char
  | .char c => c
  | .broken _ => '\uFFFD'

/-- The bytes the piece was read from. -/
def bytes : Piece → List UInt8
  | .char c => String.utf8EncodeChar c
  | .broken bytes => bytes

/-- The number of bytes the piece was read from. -/
def size : Piece → Nat
  | .char c => c.utf8Size
  | .broken bytes => bytes.length

end Piece

/-- The number of bytes that pieces were read from. -/
def totalSize : List Piece → Nat
  | [] => 0
  | p :: ps => p.size + totalSize ps

/-- The state inside an encoding: what was read, and what the next byte has to be. -/
structure Pending where
  /-- The bytes read so far, the lead byte first. -/
  bytes : List UInt8
  /-- The payload bits of those bytes. -/
  value : Nat
  /-- The least byte that continues the encoding. -/
  low : UInt8
  /-- The greatest byte that continues the encoding. -/
  high : UInt8
  /-- How many bytes are owed after the next one. -/
  owed : Nat
  deriving DecidableEq, Repr

/-- What a byte begins when it stands between encodings. Overlong forms, surrogates and numbers
above U+10FFFF are ruled out by the lead byte alone or by the bounds on the byte after it. -/
def lead (b : UInt8) : Piece ⊕ Pending :=
  let v := b.toNat
  if b < 0x80 then .inl (.char (Char.ofNat v))
  else if b < 0xC2 then .inl (.broken [b])
  else if b < 0xE0 then .inr ⟨[b], v - 0xC0, 0x80, 0xBF, 0⟩
  else if b = 0xE0 then .inr ⟨[b], 0, 0xA0, 0xBF, 1⟩
  else if b = 0xED then .inr ⟨[b], 0xD, 0x80, 0x9F, 1⟩
  else if b < 0xF0 then .inr ⟨[b], v - 0xE0, 0x80, 0xBF, 1⟩
  else if b = 0xF0 then .inr ⟨[b], 0, 0x90, 0xBF, 2⟩
  else if b < 0xF4 then .inr ⟨[b], v - 0xF0, 0x80, 0xBF, 2⟩
  else if b = 0xF4 then .inr ⟨[b], 4, 0x80, 0x8F, 2⟩
  else .inl (.broken [b])

namespace Pending

/-- Whether a byte continues the encoding. -/
def admits (p : Pending) (b : UInt8) : Bool :=
  p.low ≤ b && b ≤ p.high

/-- The encoding with one more byte: a character when no byte is owed any more. -/
def push (p : Pending) (b : UInt8) : Piece ⊕ Pending :=
  let value := p.value * 64 + (b.toNat - 0x80)
  match p.owed with
  | 0 => .inl (.char (Char.ofNat value))
  | owed + 1 => .inr ⟨p.bytes ++ [b], value, 0x80, 0xBF, owed⟩

end Pending

/-- The pieces of what follows the state `p`. A byte that does not continue an encoding ends it as
broken and is read again as a lead byte. -/
def piecesFrom : Option Pending → List UInt8 → List Piece
  | none, [] => []
  | some p, [] => [.broken p.bytes]
  | none, b :: rest =>
    match lead b with
    | .inl piece => piece :: piecesFrom none rest
    | .inr p => piecesFrom (some p) rest
  | some p, b :: rest =>
    if p.admits b then
      match p.push b with
      | .inl piece => piece :: piecesFrom none rest
      | .inr p => piecesFrom (some p) rest
    else
      .broken p.bytes ::
        match lead b with
        | .inl piece => piece :: piecesFrom none rest
        | .inr p => piecesFrom (some p) rest

/-- The pieces of a byte sequence. -/
def pieces (bytes : List UInt8) : List Piece :=
  piecesFrom none bytes

/-- The text of a byte sequence that is UTF-8 throughout. -/
def decode? (bytes : List UInt8) : Option String :=
  ((pieces bytes).mapM Piece.char?).map String.ofList

/-- The text of a byte sequence, with U+FFFD for each broken part. -/
def decodeLossy (bytes : List UInt8) : String :=
  String.ofList ((pieces bytes).map Piece.orReplacement)

/-- The UTF-8 encoding of a text. -/
def encode (s : String) : List UInt8 :=
  s.toList.flatMap String.utf8EncodeChar

/-- The pieces of a text: its characters. -/
def ofString (s : String) : List Piece :=
  s.toList.map .char

end MutationInput.Text
