import MutationInput.Text.Escape
import MutationInput.Tree.Parser

/-!
# String literals

A quoted string stays on one line and knows escapes; the units it escapes are characters, never
surrogates. A block string stands between triple quotes and is raw: no escape is processed, and
an escaped triple quote inside it stays as it is written. The lines of a block string lose their
common indentation and the blank lines at both ends.
-/
namespace MutationInput.Tree

/-- Whether a character ends a line. -/
def isTerminator (c : Char) : Bool :=
  c == '\n' || c == '\r'

/-- The characters of a quoted string up to its closing quote, and the rest. -/
def scanQuoted : Located → Option (List Char × Located)
  | [] => none
  | (c, _) :: s =>
    if c = '"' then some ([], s)
    else if isTerminator c then none
    else if c = '\\' then
      match s with
      | ('u', _) :: (a, _) :: (b, _) :: (c, _) :: (d, _) :: s => do
        let n ← Text.hexUnit? a b c d
        if 0xD800 ≤ n ∧ n < 0xE000 then none
        else
          let (cs, s) ← scanQuoted s
          return (Char.ofNat n :: cs, s)
      | (e, _) :: s => do
        let c ← Text.unescape? e
        let (cs, s) ← scanQuoted s
        return (c :: cs, s)
      | [] => none
    else do
      let (cs, s) ← scanQuoted s
      return (c :: cs, s)

/-- The characters of a block string up to its closing quotes, and the rest. -/
def scanBlock : Located → Option (List Char × Located)
  | ('"', _) :: ('"', _) :: ('"', _) :: s => some ([], s)
  | ('\\', _) :: ('"', _) :: ('"', _) :: ('"', _) :: s => do
    let (cs, s) ← scanBlock s
    return ('\\' :: '"' :: '"' :: '"' :: cs, s)
  | (c, _) :: s => do
    let (cs, s) ← scanBlock s
    return (c :: cs, s)
  | [] => none

/-- The lines of a text, which end at a line feed, a carriage return or both in this order. -/
def splitLines : List Char → List (List Char)
  | [] => [[]]
  | '\r' :: '\n' :: cs => [] :: splitLines cs
  | c :: cs =>
    if isTerminator c then [] :: splitLines cs
    else
      match splitLines cs with
      | [] => [[c]]
      | line :: lines => (c :: line) :: lines

/-- Whether a character indents a line. -/
def isIndent (c : Char) : Bool :=
  c == ' ' || c == '\t'

/-- Whether a line holds nothing but spaces and tabs. -/
def isBlankLine (line : List Char) : Bool :=
  line.all isIndent

/-- The number of spaces and tabs at the front of a line. -/
def indentOf (line : List Char) : Nat :=
  (line.takeWhile isIndent).length

/-- The least indentation of the lines that are not blank, zero if all are. -/
def commonIndent (lines : List (List Char)) : Nat :=
  ((lines.filter (!isBlankLine ·)).map indentOf).min?.getD 0

/-- A line without its first `n` characters, if it has so many bytes. -/
def outdent (n : Nat) (line : List Char) : List Char :=
  if n ≤ (String.ofList line).utf8ByteSize then line.drop n else line

/-- The value of a block string with this raw text. -/
def blockValue (raw : List Char) : List Char :=
  match splitLines raw with
  | [] => []
  | first :: rest =>
    let lines := first :: rest.map (outdent (commonIndent rest))
    let lines := lines.dropWhile isBlankLine
    let lines := (lines.reverse.dropWhile isBlankLine).reverse
    (lines.intersperse ['\n']).flatten

namespace Parser

/-- A quoted string. -/
def quotedString : Parser String := do
  word ['"']
  let cs ← scanQuoted
  return String.ofList cs

/-- A block string. -/
def blockString : Parser String := do
  word ['"', '"', '"']
  let cs ← scanBlock
  return String.ofList (blockValue cs)

/-- A string literal of either form; triple quotes are tried first. -/
def stringLiteral : Parser String :=
  blockString <|> quotedString

end Parser

end MutationInput.Tree
