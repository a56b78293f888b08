import MutationInput.Json.Mismatch
import MutationInput.Json.Reader

/-!
# Decoding JSON into types

A type is decoded in two ways, from a value that was parsed before and directly from text. They
accept the same values, but report differently: from a value the mismatch is told in words, from
text reading stops at the first fault, whichever comes first. A `Decoder` holds both ways.

A record is decoded from an object, by the names of its members, or from an array, by their order.
`Record` describes one by the members it has; an object may have others, which are passed over.
-/
namespace MutationInput.Json

/-- The two ways of decoding a type. -/
structure Decoder (α : Type) where
  /-- From a value. -/
  ofJson : Json → Except Mismatch α
  /-- From the front of a text. -/
  read : Reader α

/-- A fault at a value of the wrong type. A scalar is read first, so that a fault inside it wins;
an array or object is refused at its opening bracket. -/
def refuse {α : Type} (s : Source) : Except Fault (α × Source) :=
  match skipGap s with
  | .char '[' :: _ => .error .mismatch
  | .char '\x7b' :: _ => .error .mismatch
  | s => do
    let _ ← readValueWith none s
    throw .mismatch

/-- Reads a scalar and keeps what `f` accepts. -/
def readScalar {α : Type} (f : Json → Except Mismatch α) : Reader α := fun _ s =>
  match skipGap s with
  | .char '[' :: _ => .error .mismatch
  | .char '\x7b' :: _ => .error .mismatch
  | s => do
    let (j, s) ← readValueWith none s
    match f j with
    | .ok x => return (x, s)
    | .error _ => throw .mismatch

namespace Decoder

/-- A type of scalars. -/
def scalar {α : Type} (f : Json → Except Mismatch α) : Decoder α :=
  ⟨f, readScalar f⟩

/-- Any value. -/
def value : Decoder Json :=
  ⟨.ok, readValue⟩

/-- A string. -/
def string : Decoder String :=
  scalar fun
    | .string s => .ok s
    | j => .error (.wrongType j .string)

/-- A truth value. -/
def boolean : Decoder Bool :=
  scalar fun
    | .bool b => .ok b
    | j => .error (.wrongType j .boolean)

/-- Nothing but null. -/
def unit : Decoder Unit :=
  scalar fun
    | .null => .ok ()
    | j => .error (.wrongType j .unit)

/-- An integer of 64 bits with a sign. -/
def signed : Decoder Int :=
  scalar fun
    | .number (.integer n) =>
      if n < Number.signedBound then .ok n else .error (.outOfRange n .signed)
    | j => .error (.wrongType j .signed)

/-- An integer of 64 bits without a sign. -/
def unsigned : Decoder Nat :=
  scalar fun
    | .number (.integer (.ofNat n)) => .ok n
    | .number (.integer n) => .error (.outOfRange n .unsigned)
    | j => .error (.wrongType j .unsigned)

/-- Null for none, and otherwise what `d` decodes. -/
def optional {α : Type} (d : Decoder α) : Decoder (Option α) where
  ofJson
    | .null => .ok none
    | j => (d.ofJson j).map some
  read depth s :=
    match skipGap s with
    | .char 'n' :: s => (expect ['u', 'l', 'l'] s).map fun s => (none, s)
    | s => (d.read depth s).map fun r => (some r.1, r.2)

/-- An array of what `d` decodes. -/
def list {α : Type} (d : Decoder α) : Decoder (List α) where
  ofJson
    | .array items => items.mapM d.ofJson
    | j => .error (.wrongType j .sequence)
  read depth s :=
    match skipGap s with
    | .char '[' :: s =>
      match depth with
      | 0 => .error .malformed
      | depth + 1 => readArray (d.read depth) s
    | s => refuse s

/-- The members of an object as they are written, the values decoded by `d`. -/
def entries {α : Type} (d : Decoder α) : Decoder (List (String × α)) where
  ofJson
    | .object members => members.mapM fun e => (d.ofJson e.2).map (e.1, ·)
    | j => .error (.wrongType j .map)
  read depth s :=
    match skipGap s with
    | .char '\x7b' :: s =>
      match depth with
      | 0 => .error .malformed
      | depth + 1 => readEntries (d.read depth) s
    | s => refuse s

/-- The image of what `d` decodes. -/
def map {α β : Type} (f : α → β) (d : Decoder α) : Decoder β where
  ofJson j := (d.ofJson j).map f
  read depth s := (d.read depth s).map fun r => (f r.1, r.2)

/-- What the decoder makes of a whole text. -/
def parse {α : Type} (d : Decoder α) (s : Source) : Except Fault α :=
  readAll d.read s

end Decoder

/-! ## Records -/

/-- A member of a record: its name, whether it has to be there, and how its value is decoded into
a change of the record. -/
structure Member (α : Type) where
  key : String
  required : Bool
  decoder : Decoder (α → α)

/-- The member whose decoded value is stored by `store`. -/
def Member.storing {α β : Type} (key : String) (required : Bool) (d : Decoder β)
    (store : β → α → α) : Member α :=
  ⟨key, required, d.map store⟩

/-- A record type: its name, the record before any member is stored, and its members. -/
structure Record (α : Type) where
  name : String
  blank : α
  members : List (Member α)

namespace Record

variable {α : Type}

/-- The member of a name. -/
def find? (r : Record α) (key : String) : Option (Member α) :=
  r.members.find? fun m => m.key == key

/-- The names of the members that have to be there, in order of declaration. -/
def requiredKeys (r : Record α) : List String :=
  (r.members.filter (·.required)).map (·.key)

/-- The first required name that is not among those seen. -/
def missing? (r : Record α) (seen : List String) : Option String :=
  r.requiredKeys.find? fun key => !seen.contains key

/-- The record that members of an object make of `x`, taken in their order. -/
def storeMembers (r : Record α) : List (String × Json) → α → Except Mismatch α
  | [], x => .ok x
  | (key, j) :: members, x =>
    match r.find? key with
    | none => r.storeMembers members x
    | some m => do
      let f ← m.decoder.ofJson j
      r.storeMembers members (f x)

/-- The record that items of an array make of `x`, the `n` items before them being stored. -/
def storeItems (r : Record α) : Nat → List (Member α) → List Json → α → Except Mismatch α
  | _, [], [], x => .ok x
  | n, [], items, _ => .error (.tooLong (n + items.length))
  | n, m :: ms, [], x =>
    if m.required then .error (.tooShort n r.name r.members.length)
    else r.storeItems (n + 1) ms [] x
  | n, m :: ms, j :: items, x => do
    let f ← m.decoder.ofJson j
    r.storeItems (n + 1) ms items (f x)

/-- Decodes the record from a value. -/
def ofJson (r : Record α) : Json → Except Mismatch α
  | .object members => do
    let x ← r.storeMembers members r.blank
    match r.missing? (members.map Prod.fst) with
    | some key => throw (.missingField key)
    | none => return x
  | .array items => r.storeItems 0 r.members items r.blank
  | j => .error (.wrongType j (.record r.name))

/-- Reads one member of an object after its name. A known name that comes again is refused before
its value, and the value of an unknown one is skipped. -/
def readMember (r : Record α) (depth : Nat) (state : List String × α) (key : String)
    (s : Source) : Except Fault ((List String × α) × Source) :=
  match r.find? key with
  | none => do
    let s ← expectColon s
    let s ← skipValue s
    return (state, s)
  | some m => do
    if state.1.contains key then throw .mismatch
    let s ← expectColon s
    let (f, s) ← m.decoder.read depth s
    return ((key :: state.1, f state.2), s)

/-- Reads the items of an array into the members, and its closing bracket. After the last member
nothing but that bracket may follow. -/
def readItems (depth : Nat) : Bool → List (Member α) → α → Source → Except Fault (α × Source)
  | _, [], x, s =>
    match skipGap s with
    | [] => .error .truncated
    | .char ']' :: s => .ok (x, s)
    | _ => .error .malformed
  | isFirst, m :: ms, x, s =>
    match skipGap s with
    | [] => .error .truncated
    | .char ']' :: s =>
      if m.required || ms.any (·.required) then .error .mismatch else .ok (x, s)
    | .char ',' :: s =>
      if isFirst then do
        let (f, s) ← m.decoder.read depth (.char ',' :: s)
        readItems depth false ms (f x) s
      else
        match skipGap s with
        | [] => .error .truncated
        | .char ']' :: _ => .error .malformed
        | s => do
          let (f, s) ← m.decoder.read depth s
          readItems depth false ms (f x) s
    | s =>
      if isFirst then do
        let (f, s) ← m.decoder.read depth s
        readItems depth false ms (f x) s
      else .error .malformed

/-- Reads the record from text. -/
def read (r : Record α) : Reader α := fun depth s =>
  match skipGap s with
  | .char '\x7b' :: s =>
    match depth with
    | 0 => .error .malformed
    | depth + 1 => do
      let ((seen, x), s) ← readObject readString (r.readMember depth) ([], r.blank) s
      match r.missing? seen with
      | some _ => throw .mismatch
      | none => return (x, s)
  | .char '[' :: s =>
    match depth with
    | 0 => .error .malformed
    | depth + 1 => readItems depth true r.members r.blank s
  | s => refuse s

/-- The decoder of the record. -/
def decoder (r : Record α) : Decoder α :=
  ⟨r.ofJson, r.read⟩

end Record

end MutationInput.Json
