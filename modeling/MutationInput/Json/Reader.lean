import MutationInput.Json.Basic
import MutationInput.Json.Lexer

/-!
# Reading JSON values

`readItems` and `readMembers` are the two loops of the format, over whatever reads an item or a
member. A value is read with an allowance of containers that may still be opened, and the value
of a member that nobody asked for is skipped with no such limit. `parse` reads one value and
nothing after it.
-/
namespace MutationInput.Json

open Text (Piece)

/-- How many arrays and objects may stand inside one another. -/
def maxDepth : Nat := 127

/-- The items of an array from its first item on, up to the closing bracket. `fuel` bounds their
number; the length of the text is enough. -/
def readItems {α : Type} (item : Source → Except Fault (α × Source)) :
    Nat → Source → Except Fault (List α × Source)
  | 0, _ => .error .truncated
  | fuel + 1, s => do
    let (x, s) ← item s
    match skipGap s with
    | [] => throw .truncated
    | .char ']' :: s => return ([x], s)
    | .char ',' :: s =>
      match skipGap s with
      | [] => throw .truncated
      | .char ']' :: _ => throw .malformed
      | s =>
        let (xs, s) ← readItems item fuel s
        return (x :: xs, s)
    | _ => throw .malformed

/-- The items of an array, its opening bracket already read. -/
def readArray {α : Type} (item : Source → Except Fault (α × Source)) (s : Source) :
    Except Fault (List α × Source) :=
  match skipGap s with
  | [] => .error .truncated
  | .char ']' :: s => .ok ([], s)
  | s => readItems item s.length s

/-- The text after the colon that follows a member's name. -/
def expectColon (s : Source) : Except Fault Source :=
  match skipGap s with
  | [] => .error .truncated
  | .char ':' :: s => .ok s
  | _ => .error .malformed

/-- The members of an object from the first name on, its quote already read. `name` reads a name,
and `member` what follows it, given what the members before it came to. -/
def readMembers {κ σ : Type} (name : Source → Except Fault (κ × Source))
    (member : σ → κ → Source → Except Fault (σ × Source)) :
    Nat → σ → Source → Except Fault (σ × Source)
  | 0, _, _ => .error .truncated
  | fuel + 1, x, s => do
    let (k, s) ← name s
    let (x, s) ← member x k s
    match skipGap s with
    | [] => throw .truncated
    | .char '\x7d' :: s => return (x, s)
    | .char ',' :: s =>
      match skipGap s with
      | [] => throw .truncated
      | .char '"' :: s => readMembers name member fuel x s
      | _ => throw .malformed
    | _ => throw .malformed

/-- The members of an object, its opening brace already read. -/
def readObject {κ σ : Type} (name : Source → Except Fault (κ × Source))
    (member : σ → κ → Source → Except Fault (σ × Source)) (x : σ) (s : Source) :
    Except Fault (σ × Source) :=
  match skipGap s with
  | [] => .error .truncated
  | .char '\x7d' :: s => .ok (x, s)
  | .char '"' :: s => readMembers name member s.length x s
  | _ => .error .malformed

/-- The members of an object as they are written, each value read by `value`. -/
def readEntries {α : Type} (value : Source → Except Fault (α × Source)) (s : Source) :
    Except Fault (List (String × α) × Source) := do
  let (entries, s) ← readObject readString (fun entries k s => do
    let s ← expectColon s
    let (v, s) ← value s
    return ((k, v) :: entries, s)) [] s
  return (entries.reverse, s)

/-- The value at the front of a text. `nested` reads the values inside an array or object, and is
absent when no more of them may be opened. -/
def readValueWith (nested : Option (Source → Except Fault (Json × Source))) (s : Source) :
    Except Fault (Json × Source) :=
  match skipGap s with
  | [] => .error .truncated
  | .char 'n' :: s => (expect ['u', 'l', 'l'] s).map fun s => (.null, s)
  | .char 't' :: s => (expect ['r', 'u', 'e'] s).map fun s => (.bool true, s)
  | .char 'f' :: s => (expect ['a', 'l', 's', 'e'] s).map fun s => (.bool false, s)
  | .char '-' :: s => (readNumber true s).map fun r => (.number r.1, r.2)
  | .char '"' :: s => (readString s).map fun r => (.string r.1, r.2)
  | .char '[' :: s =>
    match nested with
    | none => .error .malformed
    | some value => (readArray value s).map fun r => (.array r.1, r.2)
  | .char '\x7b' :: s =>
    match nested with
    | none => .error .malformed
    | some value => (readEntries value s).map fun r => (ofMembers r.1, r.2)
  | .char c :: s =>
    if c.isDigit then (readNumber false (.char c :: s)).map fun r => (.number r.1, r.2)
    else .error .malformed
  | .broken _ :: _ => .error .malformed

/-- The value at the front of a text, with at most `depth` containers inside one another. -/
def readValue : Nat → Source → Except Fault (Json × Source)
  | 0 => readValueWith none
  | depth + 1 => readValueWith (some (readValue depth))

/-- The text after a value that nobody asked for. Its strings and numbers need only have the right
form; `depth` bounds the nesting, and the length of the text is enough. -/
def skipValueAt : Nat → Source → Except Fault (Unit × Source)
  | 0, _ => .error .truncated
  | depth + 1, s =>
    match skipGap s with
    | [] => .error .truncated
    | .char 'n' :: s => (expect ['u', 'l', 'l'] s).map ((), ·)
    | .char 't' :: s => (expect ['r', 'u', 'e'] s).map ((), ·)
    | .char 'f' :: s => (expect ['a', 'l', 's', 'e'] s).map ((), ·)
    | .char '-' :: s => (readNumeral .malformed true s).map fun r => ((), r.2)
    | .char '"' :: s => (skipString s).map ((), ·)
    | .char '[' :: s => (readArray (skipValueAt depth) s).map fun r => ((), r.2)
    | .char '\x7b' :: s =>
      readObject (fun s => (skipString s).map ((), ·))
        (fun _ _ s => do
          let s ← expectColon s
          skipValueAt depth s) () s
    | .char c :: s =>
      if c.isDigit then (readNumeral .malformed false (.char c :: s)).map fun r => ((), r.2)
      else .error .malformed
    | .broken _ :: _ => .error .malformed

/-- The text after a value that nobody asked for. -/
def skipValue (s : Source) : Except Fault Source :=
  (skipValueAt (s.length + 1) s).map Prod.snd

/-- A reader of values of type `α`, given how many containers may still be opened. -/
abbrev Reader (α : Type) := Nat → Source → Except Fault (α × Source)

/-- What a reader makes of a whole text, after which nothing but blanks may stand. -/
def readAll {α : Type} (read : Reader α) (s : Source) : Except Fault α := do
  let (x, s) ← read maxDepth s
  match skipGap s with
  | [] => return x
  | _ => throw .malformed

/-- The value that a text denotes. -/
def parse (s : Source) : Except Fault Json :=
  readAll readValue s

end MutationInput.Json
