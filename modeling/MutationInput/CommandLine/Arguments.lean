/-!
# Options and positional arguments

The arguments of a command are gone through from left to right, and the first one that settles the
matter does: a request for help or for the version, or a usage error. An option that takes a value
takes it after an equals sign, in the same argument or from the next one, unless that looks like an
option. Only options that collect their values may be repeated. After two hyphens everything is
positional.
-/
namespace MutationInput.CommandLine

/-- What an option does with what follows it. -/
inductive OptionForm where
  /-- It is given or not. -/
  | flag
  /-- It takes one value, once. -/
  | single
  /-- It takes a value each time it is given. -/
  | collecting
  /-- It asks for help. -/
  | help
  /-- It asks for the version. -/
  | version
  deriving DecidableEq, Repr

/-- An option: its long name, its letter if it has one, and its form. The value of some options
may not be empty. -/
structure OptionSpec where
  long : String
  short : Option Char
  form : OptionForm
  nonempty : Bool
  deriving DecidableEq, Repr

/-- What a command takes: options, and perhaps one positional argument that may not be empty. -/
structure Spec where
  options : List OptionSpec
  positional : Bool
  deriving Repr

/-- What was given: flags, values by the name of the option, and the positional argument. -/
structure Given where
  flags : List String
  values : List (String × String)
  positional : Option String
  deriving DecidableEq, Repr

/-- What ends the reading of arguments before the end. -/
inductive Stop where
  | help
  | version
  | usage
  deriving DecidableEq, Repr

namespace Given

/-- Nothing. -/
def nothing : Given := ⟨[], [], none⟩

/-- Whether a flag was given. -/
def hasFlag (g : Given) (name : String) : Bool :=
  g.flags.contains name

/-- The values of an option, in the order in which they were given. -/
def valuesOf (g : Given) (name : String) : List String :=
  (g.values.filter fun v => v.1 == name).map Prod.snd

/-- The value of an option. -/
def value? (g : Given) (name : String) : Option String :=
  g.values.lookup name

end Given

/-- Whether an argument looks like an option; a single hyphen does not. -/
def looksLikeOption (arg : String) : Bool :=
  match arg.toList with
  | '-' :: _ :: _ => true
  | _ => false

namespace Spec

/-- Takes an option without a value. -/
def takeFlag (o : OptionSpec) (g : Given) : Except Stop Given :=
  match o.form with
  | .help => .error .help
  | .version => .error .version
  | .flag =>
    if g.hasFlag o.long then .error .usage else .ok { g with flags := g.flags ++ [o.long] }
  | .single => .error .usage
  | .collecting => .error .usage

/-- Takes an option with its value. -/
def takeValue (o : OptionSpec) (v : String) (g : Given) : Except Stop Given :=
  if o.nonempty && v.isEmpty then .error .usage
  else if o.form == .single && (g.value? o.long).isSome then .error .usage
  else .ok { g with values := g.values ++ [(o.long, v)] }

/-- Takes a positional argument. -/
def takePositional (s : Spec) (v : String) (g : Given) : Except Stop Given :=
  if s.positional && g.positional.isNone && !v.isEmpty then .ok { g with positional := some v }
  else .error .usage

/-- Takes everything that is left as positional. -/
def takePositionals (s : Spec) : List String → Given → Except Stop Given
  | [], g => .ok g
  | v :: rest, g => do
    let g ← s.takePositional v g
    s.takePositionals rest g

/-- Whether an option takes a value. -/
def takesValue (o : OptionSpec) : Bool :=
  o.form == .single || o.form == .collecting

/-- The text after an equals sign at the front, or the whole text. -/
def afterEquals : List Char → List Char
  | '=' :: cs => cs
  | cs => cs

/-- Takes the letters of one argument. It gives the option that is still without its value, if the
last letter is one that takes a value. -/
def takeLetters (s : Spec) : List Char → Given → Except Stop (Given × Option OptionSpec)
  | [], g => .ok (g, none)
  | c :: cs, g =>
    match s.options.find? fun o => o.short == some c with
    | none => .error .usage
    | some o =>
      if takesValue o then
        if cs.isEmpty then .ok (g, some o)
        else do
          let g ← takeValue o (String.ofList (afterEquals cs)) g
          return (g, none)
      else do
        let g ← takeFlag o g
        s.takeLetters cs g

/-- Takes an argument that begins with two hyphens. It gives the option that is still without its
value, if there is one. -/
def takeLong (s : Spec) (cs : List Char) (g : Given) : Except Stop (Given × Option OptionSpec) :=
  let name := String.ofList (cs.takeWhile (· != '='))
  match s.options.find? fun o => o.long == name with
  | none => .error .usage
  | some o =>
    match cs.dropWhile (· != '=') with
    | [] => if takesValue o then .ok (g, some o) else (takeFlag o g).map (·, none)
    | _ :: v =>
      if takesValue o then (takeValue o (String.ofList v) g).map (·, none) else .error .usage

/-- Takes one argument that looks like an option. -/
def takeOption (s : Spec) (arg : String) (g : Given) : Except Stop (Given × Option OptionSpec) :=
  match arg.toList with
  | '-' :: '-' :: cs => s.takeLong cs g
  | cs => s.takeLetters (cs.drop 1) g

/-- Takes all arguments, the option `pending` waiting for its value. Where a command has
subcommands instead of a positional argument, the first other argument ends the reading, and the
rest is left. -/
def take (s : Spec) (subcommands : Bool) :
    Option OptionSpec → List String → Given → Except Stop (Given × List String)
  | none, [], g => .ok (g, [])
  | some _, [], _ => .error .usage
  | some o, arg :: rest, g =>
    if looksLikeOption arg then .error .usage
    else do
      let g ← takeValue o arg g
      s.take subcommands none rest g
  | none, arg :: rest, g =>
    if arg = "--" then (s.takePositionals rest g).map (·, [])
    else if looksLikeOption arg then do
      let (g, pending) ← s.takeOption arg g
      s.take subcommands pending rest g
    else if subcommands then .ok (g, arg :: rest)
    else do
      let g ← s.takePositional arg g
      s.take subcommands none rest g

end Spec

end MutationInput.CommandLine
