import MutationInput.Http.Head
import MutationInput.Text.Escape
import MutationInput.Text.Utf8

/-!
# Chunked bodies

A chunk is its size in hexadecimal on a line of its own, so many bytes, and the end of a line. A
chunk of size zero ends the body; fields and an empty line follow it. All lines end with a carriage
return and a line feed.
-/
namespace MutationInput.Http.Chunk

/-- The end of a line. -/
def lineEnd : List UInt8 := [13, 10]

/-- The first line, and what follows it. -/
def line? (bytes : List UInt8) : Option (List UInt8 × List UInt8) :=
  let rest := bytes.dropWhile (· != 13)
  if rest.take 2 = lineEnd then some (bytes.takeWhile (· != 13), rest.drop 2) else none

/-- The size that a line tells, below 2⁶⁴. Blanks may follow it, and a semicolon with anything but
a line feed after it. -/
def size? (line : List UInt8) : Option Nat :=
  let cs := (Head.lineText line).toList
  let isHex (c : Char) : Bool := (Text.hexDigit? c).isSome
  let digits := cs.takeWhile isHex
  let rest := (cs.dropWhile isHex).dropWhile fun c => c == ' ' || c == '\t'
  let size := digits.foldl (fun n c => n * 16 + (Text.hexDigit? c).getD 0) 0
  if !digits.isEmpty && size < UInt64.size && (rest.isEmpty || rest.head? == some ';') &&
      !rest.contains '\n' then
    some size
  else none

/-- Whether fields and an empty line come next. There may be `limit` fields. -/
def isTrailer : Nat → List UInt8 → Bool
  | limit, bytes =>
    match line? bytes with
    | none => false
    | some (line, rest) =>
      if line.isEmpty then true
      else
        match limit with
        | 0 => false
        | limit + 1 => (Head.field? line).isSome && isTrailer limit rest

/-- The bytes of the chunks, and whether the body ends as it should. `fuel` bounds the number of
chunks. -/
def joinFrom : Nat → List UInt8 → List UInt8 × Bool
  | 0, _ => ([], false)
  | fuel + 1, bytes =>
    match line? bytes with
    | none => ([], false)
    | some (line, rest) =>
      match size? line with
      | none => ([], false)
      | some 0 => ([], isTrailer Head.maxFields rest)
      | some size =>
        if (rest.drop size).take 2 = lineEnd then
          let (more, complete) := joinFrom fuel (rest.drop (size + 2))
          (rest.take size ++ more, complete)
        else (rest.take size, false)

/-- The bytes of the chunks, and whether the body ends as it should. -/
def join (bytes : List UInt8) : List UInt8 × Bool :=
  joinFrom bytes.length bytes

/-- One chunk. -/
def encode (bytes : List UInt8) : List UInt8 :=
  Text.encode (String.ofList (Nat.toDigits 16 bytes.length)) ++ lineEnd ++ bytes ++ lineEnd

/-- A body as a single chunk, and none if it is empty, with the one that ends it. -/
def encodeBody (bytes : List UInt8) : List UInt8 :=
  (if bytes.isEmpty then [] else encode bytes) ++ encode []

end MutationInput.Http.Chunk
