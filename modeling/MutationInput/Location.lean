/-!
# Locations in a document

Lines and columns count from one, columns in characters. A location that was never set is 0:0.
`locate` gives every character of a text its location: a line feed ends a line, and a carriage
return moves back to the first column of the same line.
-/
namespace MutationInput

/-- A line and a column of a text. -/
structure Location where
  line : Nat
  column : Nat
  deriving DecidableEq, Repr, Inhabited

namespace Location

/-- The location that stands for none. -/
def unset : Location := ⟨0, 0⟩

/-- The location of the first character of a text. -/
def start : Location := ⟨1, 1⟩

/-- The location after a character that stands at this one. -/
def after (l : Location) (c : Char) : Location :=
  if c = '\n' then ⟨l.line + 1, 1⟩
  else if c = '\r' then ⟨l.line, 1⟩
  else ⟨l.line, l.column + 1⟩

/-- Whether a location comes no later than another: by line, then by column. -/
def le (a b : Location) : Bool :=
  a.line < b.line || (a.line == b.line && a.column ≤ b.column)

/-- A location as it is written in messages. -/
def text (l : Location) : String :=
  toString l.line ++ ":" ++ toString l.column

end Location

/-- Characters with their locations. -/
abbrev Located := List (Char × Location)

/-- The characters of a text with their locations, the first one at `l`. -/
def locateFrom (l : Location) : List Char → Located
  | [] => []
  | c :: cs => (c, l) :: locateFrom (l.after c) cs

/-- The characters of a text with their locations. -/
def locate (s : String) : Located :=
  locateFrom .start s.toList

end MutationInput
