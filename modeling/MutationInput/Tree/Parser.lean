import MutationInput.Location

/-!
# Parsers with ordered choice

A parser reads from the front of a located text and gives a result and the rest, or fails. A
choice takes its first alternative that succeeds and never returns to the others, and a repetition
takes as many items as it can.
-/
namespace MutationInput.Tree

/-- A parser of values of type `α`. -/
abbrev Parser (α : Type) := Located → Option (α × Located)

namespace Parser

variable {α β : Type}

instance : Monad Parser where
  pure x s := some (x, s)
  bind p f s :=
    match p s with
    | none => none
    | some (x, s) => f x s

/-- The parser that always fails. -/
def fail : Parser α := fun _ => none

/-- The first of two parsers if it succeeds, else the second. -/
def orElse (p q : Parser α) : Parser α := fun s =>
  match p s with
  | none => q s
  | r => r

instance : OrElse (Parser α) where
  orElse p q := p.orElse (q ())

/-- The result of a parser, or none without reading anything where it fails. -/
def optional (p : Parser α) : Parser (Option α) := fun s =>
  match p s with
  | none => some (none, s)
  | some (x, s) => some (some x, s)

/-- As many results of a parser as it gives in a row, at most `n`, and the rest. -/
def manyUpTo (p : Parser α) : Nat → Located → List α × Located
  | 0, s => ([], s)
  | n + 1, s =>
    match p s with
    | none => ([], s)
    | some (x, s) =>
      let (xs, s) := manyUpTo p n s
      (x :: xs, s)

/-- As many results of a parser as it gives in a row. A parser that reads something each time is
never cut short, as the text has no more characters than its length. -/
def many (p : Parser α) : Parser (List α) := fun s =>
  some (manyUpTo p s.length s)

/-- One result of a parser or more. -/
def many1 (p : Parser α) : Parser (List α) := do
  let x ← p
  let xs ← many p
  return x :: xs

/-- Reads nothing, and fails where `p` succeeds. -/
def notNext (p : Parser α) : Parser Unit := fun s =>
  match p s with
  | none => some ((), s)
  | some _ => none

/-- The location of the next character. -/
def here : Parser Location
  | [] => none
  | s@((_, l) :: _) => some (l, s)

/-- Succeeds at the end of the text. -/
def atEnd : Parser Unit
  | [] => some ((), [])
  | _ => none

/-- One character of a class. -/
def satisfy (p : Char → Bool) : Parser Char
  | [] => none
  | (c, _) :: s => if p c then some (c, s) else none

/-- The characters of a word. -/
def word : List Char → Parser Unit
  | [], s => some ((), s)
  | _ :: _, [] => none
  | c :: cs, (d, _) :: s => if c = d then word cs s else none

/-- The characters at the front of a text that belong to a class, and the rest. -/
def span (p : Char → Bool) : Located → List Char × Located
  | [] => ([], [])
  | (c, l) :: s =>
    if p c then
      let (cs, s) := span p s
      (c :: cs, s)
    else ([], (c, l) :: s)

/-- As many characters of a class as there are. -/
def takeMany (p : Char → Bool) : Parser (List Char) := fun s =>
  some (span p s)

/-- One character of a class or more. -/
def takeMany1 (p : Char → Bool) : Parser (List Char) := fun s =>
  match span p s with
  | ([], _) => none
  | r => some r

end Parser

end MutationInput.Tree
