import MutationInput.Json.Decode
import MutationInput.Json.Printer

/-!
# Responses

The body of a response holds data, errors or both. An error has a message and perhaps the places
in the request it concerns, the path in the data it concerns, and further members. Members that
are absent are not written, and null stands for an absent one.
-/
namespace MutationInput

/-- A place in the text of a request. -/
structure ErrorLocation where
  line : Nat
  column : Nat
  deriving DecidableEq, Repr, Inhabited

/-- A step of a path through the data: into a list or into an object. -/
inductive PathSegment where
  | index (n : Nat)
  | field (name : String)
  deriving DecidableEq, Repr, Inhabited

/-- An error that a response lists. -/
structure ResponseError where
  message : String
  locations : Option (List ErrorLocation)
  path : Option (List PathSegment)
  /-- The members of an object, sorted by name. -/
  extensions : Option (List (String × Json))
  deriving Inhabited

/-- The body of a response. -/
structure ResponseBody where
  data : Option Json
  errors : Option (List ResponseError)
  deriving Inhabited

/-! ## Decoding -/

/-- The record of a place. -/
def ErrorLocation.record : Json.Record ErrorLocation where
  name := "ErrorLocation"
  blank := ⟨0, 0⟩
  members :=
    [.storing "line" true .unsigned fun n l => { l with line := n },
      .storing "column" true .unsigned fun n l => { l with column := n }]

/-- The segment that a value stands for: an index if it is an integer without sign, a field if it
is a string. -/
def PathSegment.ofJson : Json → Except Json.Mismatch PathSegment
  | .number (.integer (.ofNat n)) => .ok (.index n)
  | .string s => .ok (.field s)
  | _ => .error .noSegment

/-- The decoder of a segment. The value is read whole before its shape is looked at. -/
def PathSegment.decoder : Json.Decoder PathSegment where
  ofJson := ofJson
  read depth s := do
    let (j, s) ← Json.readValue depth s
    match ofJson j with
    | .ok x => return (x, s)
    | .error _ => throw .mismatch

/-- The record of an error. -/
def ResponseError.record : Json.Record ResponseError where
  name := "GraphQLError"
  blank := ⟨"", none, none, none⟩
  members :=
    [.storing "message" true .string fun s e => { e with message := s },
      .storing "locations" false (ErrorLocation.record.decoder.list.optional) fun ls e =>
        { e with locations := ls },
      .storing "path" false (PathSegment.decoder.list.optional) fun p e => { e with path := p },
      .storing "extensions" false ((Json.Decoder.value.entries.map Json.sortMembers).optional)
        fun ms e => { e with extensions := ms }]

/-- The decoder of an error. -/
def ResponseError.decoder : Json.Decoder ResponseError :=
  ResponseError.record.decoder

/-- The record of a body. -/
def ResponseBody.record : Json.Record ResponseBody where
  name := "ResponseEnvelope"
  blank := ⟨none, none⟩
  members :=
    [.storing "data" false Json.Decoder.value.optional fun d e => { e with data := d },
      .storing "errors" false ResponseError.decoder.list.optional fun es e =>
        { e with errors := es }]

/-- The decoder of a body. -/
def ResponseBody.decoder : Json.Decoder ResponseBody :=
  ResponseBody.record.decoder

/-! ## Encoding -/

/-- A natural number as a JSON value. -/
def Json.ofNat (n : Nat) : Json :=
  .number (.integer n)

/-- A member that is written if it is there. -/
def Json.optionalMember {α : Type} (key : String) (f : α → Json) :
    Option α → List (String × Json)
  | none => []
  | some x => [(key, f x)]

/-- The JSON value of a place. -/
def ErrorLocation.toJson (l : ErrorLocation) : Json :=
  .object [("line", .ofNat l.line), ("column", .ofNat l.column)]

/-- The JSON value of a segment. -/
def PathSegment.toJson : PathSegment → Json
  | .index n => .ofNat n
  | .field name => .string name

/-- The JSON value of an error. -/
def ResponseError.toJson (e : ResponseError) : Json :=
  .object <|
    ("message", .string e.message) ::
      Json.optionalMember "locations" (fun ls => .array (ls.map ErrorLocation.toJson)) e.locations ++
      Json.optionalMember "path" (fun p => .array (p.map PathSegment.toJson)) e.path ++
      Json.optionalMember "extensions" .object e.extensions

/-- The JSON value of a body. -/
def ResponseBody.toJson (e : ResponseBody) : Json :=
  .object <|
    Json.optionalMember "data" id e.data ++
      Json.optionalMember "errors" (fun es => .array (es.map ResponseError.toJson)) e.errors

/-! ## Messages -/

/-- The text of a path after `written`: a field follows a point unless it comes first, and an index
stands in brackets. -/
def PathSegment.renderFrom (written : String) : List PathSegment → String
  | [] => written
  | .field name :: rest =>
    renderFrom (if written.isEmpty then name else written ++ "." ++ name) rest
  | .index n :: rest => renderFrom (written ++ "[" ++ toString n ++ "]") rest

namespace ResponseError

/-- An error that has only a message. -/
def ofMessage (message : String) : ResponseError :=
  ⟨message, none, none, none⟩

/-- The text of the path, if there is one that is not empty. -/
def pathText? (e : ResponseError) : Option String :=
  match e.path with
  | none => none
  | some [] => none
  | some path => some (PathSegment.renderFrom "" path)

/-- The file that an error concerns: the text of its member `file`, or `input`. -/
def file (e : ResponseError) : String :=
  match (Json.object (e.extensions.getD [])).member? "file" with
  | some (.string s) => if s.isEmpty then "input" else s
  | _ => "input"

/-- An error on one line: the file, the line of the first place, the path and the message. -/
def display (e : ResponseError) : String :=
  let line :=
    match e.locations with
    | some (l :: _) => ":" ++ toString l.line
    | _ => ""
  let path :=
    match e.pathText? with
    | some path => path ++ " "
    | none => ""
  e.file ++ line ++ ": " ++ path ++ e.message

end ResponseError

end MutationInput
