import MutationInput.Provided.Fields

/-!
# Which fields a mutation provides

For the field whose resolver is running, the top-level selections of that field are gone through in
document order, and in each of them the arguments: all of them as written, or the requested ones in
the order of the request. An argument that provides fields enters the result, replacing what an
earlier selection provided under its name. This is a run over a list of steps (`Inspection.steps`,
`Inspection.run`), and each step reports what it did.

If arguments were requested, one of them that is not an input object is an error; if none were,
such arguments are passed over. A variable without binding contributes nothing, or is an error
when bindings are required.
-/
namespace MutationInput

/-- A part of the request's state that the resolution depends on. -/
inductive ContextItem where
  | fieldName
  | operation
  deriving DecidableEq, Repr

/-- The words for a part of the state. -/
def ContextItem.words : ContextItem → String
  | .fieldName => "field name"
  | .operation => "operation"

/-- Why the provided fields could not be determined. -/
inductive ProvidedError where
  /-- The operation does not select the field at its top level. -/
  | fieldNotFound (field : String)
  /-- The context lacks a part. -/
  | missingContext (item : ContextItem)
  /-- The operation is not a mutation. -/
  | notAMutation (kind : OperationKind)
  /-- An argument passes a variable without binding, and bindings are required. -/
  | unboundVariable (argument «variable» : String)
  /-- A requested argument has a value without fields. -/
  | unsupportedKind (argument : String) (kind : ValueKind) (reference : Option String)
  deriving DecidableEq, Repr

/-- The message of an error. -/
def ProvidedError.message : ProvidedError → String
  | .fieldNotFound field => "No selection of field `" ++ field ++ "` found in the operation."
  | .missingContext item => "No " ++ item.words ++ " available in the resolver context."
  | .notAMutation kind =>
    "Provided fields can only be determined for mutations, not a " ++ kind.word ++ "."
  | .unboundVariable argument name =>
    "Argument `" ++ argument ++ "` refers to `$" ++ name ++
      "`, but no value was supplied for that variable."
  | .unsupportedKind argument kind _ =>
    "Argument `" ++ argument ++ "` is a " ++ kind.word ++
      " value; only input objects have provided fields."

/-- The state of the resolver that is running: the operation and the field it runs for, as far as
they are known, and the variables of the request. -/
structure Context where
  operation : Option Operation
  fieldName : Option String
  bindings : Variables

/-- What to look at: the requested arguments, or all arguments if the list is empty, and whether
every variable that is passed has to be bound. -/
structure Inspection where
  requested : List String
  requireBound : Bool
  deriving DecidableEq, Repr

namespace Inspection

/-- The inspection of all arguments that tolerates variables without binding. -/
def all : Inspection := ⟨[], false⟩

/-- The inspection with further requested arguments. A name that was requested is not added. -/
def request (r : Inspection) (names : List String) : Inspection :=
  { r with
    requested := names.foldl (fun seen n => if seen.contains n then seen else seen ++ [n])
      r.requested }

/-- The inspection that requires bindings, or not. -/
def requiring (r : Inspection) (require : Bool) : Inspection :=
  { r with requireBound := require }

/-- What one argument contributes: the names of its fields, or nothing. -/
def inspect (r : Inspection) (bindings : Variables) (argument : String) (v : Value) :
    Logged (Except ProvidedError (Option (List String))) :=
  let listed :=
    let l := v.classify.fieldNames bindings
    match l.result with
    | .ok names => ⟨l.events, .ok (some names)⟩
    | .error e =>
      if r.requested.isEmpty then ⟨l.events ++ [.kindSkipped argument e.kind], .ok none⟩
      else ⟨l.events, .error (.unsupportedKind argument e.kind e.reference)⟩
  match v with
  | .variable name =>
    if bindings.contains name then listed
    else if r.requireBound then .silent (.error (.unboundVariable argument name))
    else ⟨[.unboundSkipped argument name], .ok none⟩
  | _ => listed

/-- One step of an inspection. -/
inductive Step where
  /-- A selection of the field is reached. -/
  | visit (f : Field)
  /-- A requested argument is not passed. -/
  | absent (argument : String)
  /-- An argument is passed and looked at. -/
  | argument (name : String) (v : Value)

/-- The steps inside one selection. -/
def argumentSteps (r : Inspection) (f : Field) : List Step :=
  if r.requested.isEmpty then f.arguments.entries.map fun a => .argument a.1 a.2
  else
    r.requested.map fun name =>
      match f.argument? name with
      | some v => .argument name v
      | none => .absent name

/-- The steps through selections of the field. -/
def steps (r : Inspection) (fields : List Field) : List Step :=
  fields.flatMap fun f => .visit f :: r.argumentSteps f

/-- Takes the steps in order, from what was provided before them, up to the first error. -/
def run (r : Inspection) (bindings : Variables) (fieldName : String) :
    List Step → ProvidedFields → Logged (Except ProvidedError ProvidedFields)
  | [], p => .silent (.ok p)
  | .visit f :: rest, p =>
    (r.run bindings fieldName rest p).report [.inspecting f.selectedName fieldName f.location]
  | .absent name :: rest, p =>
    (r.run bindings fieldName rest p).report [.argumentAbsent name fieldName]
  | .argument name v :: rest, p =>
    let l := r.inspect bindings name v
    match l.result with
    | .error e => ⟨l.events, .error e⟩
    | .ok none => (r.run bindings fieldName rest p).report l.events
    | .ok (some names) => (r.run bindings fieldName rest (p.insert name names)).report l.events

/-- The selections of the field at the top level of an operation, by name and not by alias. -/
def matching (op : Operation) (fieldName : String) : List Field :=
  op.fields.filter fun f => f.name == fieldName

/-- The fields that the mutation of a context provides for the field of the context. -/
def resolve (r : Inspection) (ctx : Context) : Logged (Except ProvidedError ProvidedFields) :=
  match ctx.operation with
  | none => .silent (.error (.missingContext .operation))
  | some op =>
    if op.kind ≠ .mutation then .silent (.error (.notAMutation op.kind))
    else
      match ctx.fieldName with
      | none => .silent (.error (.missingContext .fieldName))
      | some fieldName =>
        let fields := matching op fieldName
        if fields.isEmpty then .silent (.error (.fieldNotFound fieldName))
        else r.run ctx.bindings fieldName (r.steps fields) Dict.empty

end Inspection

/-- The fields that the mutation of a context provides, in the named arguments or in all. -/
def providedFields (ctx : Context) (arguments : List String) :
    Logged (Except ProvidedError ProvidedFields) :=
  (Inspection.all.request arguments).resolve ctx

end MutationInput
