import MutationInput.CommandLine.Invocation
import MutationInput.Files
import MutationInput.Provided.Resolve

/-!
# Running a command

A command reads files, may ask for the reply to a request, and ends with an outcome: an exit code
and what goes to the two outputs. Both commands go through their steps in order and stop at the
first that fails; the failure alone is reported. What paths lead to is given as a function.
-/
namespace MutationInput.CommandLine

/-- Why a command failed. -/
inductive CommandError where
  /-- A header is not a name, a colon and a value. -/
  | malformedHeader (header : String)
  /-- A header is not valid. -/
  | header (e : TransportError)
  | read (e : ReadError)
  | lookup (document : String) (e : LookupError)
  | resolve (field : String) (e : ProvidedError)
  /-- The exchange with the endpoint failed. -/
  | exchange (endpoint : String) (e : TransportError)
  /-- The response lists errors. -/
  | listed (errors : List ResponseError)

/-- The message of an error, with that of its cause after it. -/
def CommandError.message (lib : Library) : CommandError → String
  | .malformedHeader text => "header `" ++ text ++ "` is not of the form NAME:VALUE"
  | .header e => e.message ++ ": " ++ e.cause lib
  | .read e => e.message lib
  | .lookup document e =>
    "selecting operation in " ++ Text.quoted document ++ ": " ++ e.message
  | .resolve field e => "resolving provided fields of `" ++ field ++ "`: " ++ e.message
  | .exchange endpoint e =>
    "executing query against " ++ endpoint ++ ": " ++ e.message ++ ": " ++ e.cause lib
  | .listed errors =>
    "GraphQL endpoint returned " ++ toString errors.length ++ " error(s):\n" ++
      "\n".intercalate (errors.map fun e => "  * " ++ e.display)

/-- What a command leaves behind. -/
structure Outcome where
  exitCode : UInt8
  stdout : String
  stderr : String
  deriving DecidableEq, Repr

namespace Outcome

/-- Success, with one text for the output. -/
def success (text : String) : Outcome :=
  ⟨0, text ++ "\n", ""⟩

/-- Failure, with one text for the error output. -/
def failure (text : String) : Outcome :=
  ⟨1, "", "❌ " ++ text ++ "\n"⟩

/-- The outcome of a command that gives a value to print or fails. -/
def ofResult (lib : Library) : Except CommandError Json → Outcome
  | .ok j => success j.pretty
  | .error e => failure (e.message lib)

end Outcome

/-- The variables in a file, if one is given. -/
def readVariables? (files : FileSystem) :
    Option String → Except CommandError (Option Variables)
  | none => .ok none
  | some path => ((files.readVariables path).mapError .read).map some

namespace ExecuteOptions

/-- The client with one more header given on the command line. -/
def addHeader (c : Client) (header : String) : Except CommandError Client :=
  match Text.splitFirst? ':' header with
  | none => .error (.malformedHeader header)
  | some (name, value) =>
    (c.withHeader (Text.trim name) (Text.trim value)).mapError .header

/-- The client that the options describe. -/
def client (o : ExecuteOptions) : Except CommandError Client :=
  o.headers.foldlM addHeader ((Client.ofEndpoint o.endpoint).withContentType o.contentType)

/-- The client, the query and the variables, in the order in which they are looked at. -/
def prepare (o : ExecuteOptions) (files : FileSystem) :
    Except CommandError (Client × String × Option Variables) := do
  let client ← o.client
  let query ← (files.readText o.query).mapError .read
  let bindings ← readVariables? files o.variablesFile
  return (client, query, bindings)

/-- The data of the response to the query. -/
def data (o : ExecuteOptions) (lib : Library) (files : FileSystem) :
    Interaction (Logged (Except CommandError Json)) :=
  match o.prepare files with
  | .error e => .done (.silent (.error e))
  | .ok (client, query, bindings) =>
    (client.execute lib .ok query bindings).map fun l => l.map fun
      | .ok j => .ok j
      | .error (.listed errors) => .error (.listed errors)
      | .error (.transport e) => .error (.exchange o.endpoint e)

end ExecuteOptions

namespace ProvidedOptions

/-- The fields that the document provides. -/
def fields (o : ProvidedOptions) (files : FileSystem) :
    Logged (Except CommandError ProvidedFields) :=
  ((files.readDocument o.document).map fun r => r.mapError .read).andThen fun document =>
    match document.operation o.operationName with
    | .error e => .silent (.error (.lookup o.document e))
    | .ok op =>
      match readVariables? files o.variablesFile with
      | .error e => .silent (.error e)
      | .ok given =>
        let bindings := given.getD Dict.empty
        let r := (Inspection.all.request o.arguments).requiring o.requireBound
        ((r.resolve ⟨some op, some o.field, bindings⟩).map fun p =>
          p.mapError (.resolve o.field)).report [.bindingsLoaded bindings.size op.kind]

end ProvidedOptions

namespace Command

/-- The files that a command reads. -/
def paths : Command → List String
  | .execute o => o.query :: o.variablesFile.toList
  | .provided o => o.document :: o.variablesFile.toList

/-- What a command prints or how it fails. -/
def result (lib : Library) (files : FileSystem) :
    Command → Interaction (Logged (Except CommandError Json))
  | .execute o => o.data lib files
  | .provided o => .done ((o.fields files).map fun r => r.map ProvidedFields.toJson)

end Command

/-- Runs a command at the log level that is asked for, and keeps the events of that level. -/
def run (lib : Library) (verbose : Bool) (level? : Option String) (files : FileSystem)
    (c : Command) : Interaction (List Event × Outcome) :=
  let (level, warnings) := logLevel verbose level?
  (c.result lib files).map fun l =>
    let l := l.report (.levelSet level :: warnings)
    (l.eventsAt level, Outcome.ofResult lib l.result)

end MutationInput.CommandLine
