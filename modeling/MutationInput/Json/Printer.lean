import MutationInput.Json.Basic

/-!
# JSON texts

One printer writes both forms of a value: on one line without any blank, and spread over lines
with two spaces for each level. They differ only in the blanks between tokens. Members are
written in the order they have, and an empty array or object takes no blanks in either form.
-/
namespace MutationInput.Json

/-- How a character is written inside a string. -/
def escapeChar (c : Char) : List Char :=
  match c with
  | '"' => ['\\', '"']
  | '\\' => ['\\', '\\']
  | '\x08' => ['\\', 'b']
  | '\x0c' => ['\\', 'f']
  | '\n' => ['\\', 'n']
  | '\r' => ['\\', 'r']
  | '\t' => ['\\', 't']
  | c =>
    if c.toNat < 0x20 then
      ['\\', 'u', '0', '0', Nat.digitChar (c.toNat / 16), Nat.digitChar (c.toNat % 16)]
    else [c]

/-- A string between quotes. -/
def printString (s : String) : List Char :=
  '"' :: s.toList.flatMap escapeChar ++ ['"']

/-- The blanks between tokens: none on one line, or a line end and two spaces a level. -/
def lineBreak : Option Nat → List Char
  | none => []
  | some level => '\n' :: List.replicate (2 * level) ' '

/-- The blank between a name's colon and its value. -/
def gap : Option Nat → List Char
  | none => []
  | some _ => [' ']

/-- The text of a truth value. -/
def printBool : Bool → List Char
  | true => ['t', 'r', 'u', 'e']
  | false => ['f', 'a', 'l', 's', 'e']

mutual

/-- The text of a value at a level of indentation, or on one line. -/
def print (level : Option Nat) : Json → List Char
  | .null => ['n', 'u', 'l', 'l']
  | .bool b => printBool b
  | .number n => n.text
  | .string s => printString s
  | .array [] => ['[', ']']
  | .array (j :: items) =>
    let inner := level.map (· + 1)
    '[' :: lineBreak inner ++ print inner j ++ printItems inner items ++ lineBreak level ++ [']']
  | .object [] => ['\x7b', '\x7d']
  | .object ((k, j) :: members) =>
    let inner := level.map (· + 1)
    '\x7b' :: lineBreak inner ++ printString k ++ ':' :: gap inner ++ print inner j ++
      printMembers inner members ++ lineBreak level ++ ['\x7d']

/-- The texts of further items, each after a comma. -/
def printItems (level : Option Nat) : List Json → List Char
  | [] => []
  | j :: items => ',' :: lineBreak level ++ print level j ++ printItems level items

/-- The texts of further members, each after a comma. -/
def printMembers (level : Option Nat) : List (String × Json) → List Char
  | [] => []
  | (k, j) :: members =>
    ',' :: lineBreak level ++ printString k ++ ':' :: gap level ++ print level j ++
      printMembers level members

end

/-- The text of a value on one line. -/
def compact (j : Json) : String :=
  String.ofList (j.print none)

/-- The text of a value spread over lines. -/
def pretty (j : Json) : String :=
  String.ofList (j.print (some 0))

/-- The text of a value on one line, with sorted members. -/
def canonicalText (j : Json) : String :=
  j.canonical.compact

end MutationInput.Json
