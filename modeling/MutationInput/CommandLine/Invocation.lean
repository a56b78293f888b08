import MutationInput.Client
import MutationInput.CommandLine.Arguments
import MutationInput.Event
import MutationInput.Text.Blank

/-!
# What a command line asks for

A command line asks for help, for the version or for one of two commands, or it is a usage error.
-/
namespace MutationInput.CommandLine

/-- The options of the command that executes a query. -/
structure ExecuteOptions where
  contentType : String
  endpoint : String
  /-- Headers, each as a name, a colon and a value. -/
  headers : List String
  query : String
  variablesFile : Option String
  deriving DecidableEq, Repr

/-- The options of the command that lists the fields a mutation provides. -/
structure ProvidedOptions where
  arguments : List String
  document : String
  field : String
  operationName : Option String
  requireBound : Bool
  variablesFile : Option String
  deriving DecidableEq, Repr

/-- One of the two commands. -/
inductive Command where
  | execute (o : ExecuteOptions)
  | provided (o : ProvidedOptions)
  deriving DecidableEq, Repr

/-- What a command line asks for. -/
inductive Invocation where
  | help
  | version
  | usage
  | run (verbose : Bool) (command : Command)
  deriving DecidableEq, Repr

/-- The option that asks for debug output. -/
def verboseOption : OptionSpec := ⟨"verbose", some 'v', .flag, false⟩

/-- The option that asks for help. -/
def helpOption : OptionSpec := ⟨"help", some 'h', .help, false⟩

/-- What may stand before the command. -/
def topSpec : Spec :=
  ⟨[verboseOption, helpOption, ⟨"version", some 'V', .version, false⟩], false⟩

/-- What the command that executes a query takes. -/
def executeSpec : Spec :=
  ⟨[verboseOption, helpOption, ⟨"content-type", none, .single, false⟩,
      ⟨"endpoint", some 'e', .single, false⟩, ⟨"header", some 'H', .collecting, false⟩,
      ⟨"variables", none, .single, true⟩],
    true⟩

/-- What the command that lists fields takes. -/
def providedSpec : Spec :=
  ⟨[verboseOption, helpOption, ⟨"argument", some 'a', .collecting, false⟩,
      ⟨"field", some 'f', .single, false⟩, ⟨"operation-name", none, .single, false⟩,
      ⟨"require-bound-variables", none, .flag, false⟩, ⟨"variables", none, .single, true⟩],
    true⟩

/-- The command that executes a query, if all that it requires was given. -/
def executeCommand? (g : Given) : Option Command := do
  let endpoint ← g.value? "endpoint"
  let query ← g.positional
  return .execute
    { contentType := (g.value? "content-type").getD Client.defaultContentType
      endpoint := endpoint
      headers := g.valuesOf "header"
      query := query
      variablesFile := g.value? "variables" }

/-- The command that lists fields, if all that it requires was given. Each value of the option for
arguments is split at its commas. -/
def providedCommand? (g : Given) : Option Command := do
  let field ← g.value? "field"
  let document ← g.positional
  return .provided
    { arguments := (g.valuesOf "argument").flatMap (·.splitOn ",")
      document := document
      field := field
      operationName := g.value? "operation-name"
      requireBound := g.hasFlag "require-bound-variables"
      variablesFile := g.value? "variables" }

/-- What the arguments of a command ask for. -/
def ofCommand (verbose : Bool) (s : Spec) (command? : Given → Option Command)
    (args : List String) : Invocation :=
  match s.take false none args .nothing with
  | .error .help => .help
  | .error .version => .version
  | .error .usage => .usage
  | .ok (g, _) =>
    match command? g with
    | some c => .run (verbose || g.hasFlag "verbose") c
    | none => .usage

/-- Whether names lead to a command that there is help for. No command has others below it. -/
def hasHelp : List String → Bool
  | [] => true
  | ["execute"] => true
  | ["provided-fields"] => true
  | ["help"] => true
  | _ => false

namespace Invocation

/-- What a command line asks for. -/
def ofArguments (args : List String) : Invocation :=
  match topSpec.take true none args .nothing with
  | .error .help => .help
  | .error .version => .version
  | .error .usage => .usage
  | .ok (_, []) => .help
  | .ok (g, name :: rest) =>
    let verbose := g.hasFlag "verbose"
    if name = "execute" then ofCommand verbose executeSpec executeCommand? rest
    else if name = "provided-fields" then ofCommand verbose providedSpec providedCommand? rest
    else if name = "help" ∧ hasHelp rest then .help
    else .usage

end Invocation

/-- The log level: debug if it was asked for on the command line, else the one that the environment
names, else the default. A name that is not known is reported. -/
def logLevel (verbose : Bool) (named : Option String) : Level × List Event :=
  if verbose then (.debug, [])
  else
    match named with
    | none => (.info, [])
    | some name =>
      let name := Text.lowerAscii (Text.trim name)
      if name = "trace" then (.trace, [])
      else if name = "debug" ∨ name = "verbose" then (.debug, [])
      else if name = "info" then (.info, [])
      else if name = "warn" then (.warn, [])
      else (.info, [.levelUnknown name])

end MutationInput.CommandLine
