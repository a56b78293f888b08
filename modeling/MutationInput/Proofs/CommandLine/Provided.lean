import MutationInput.Proofs.CommandLine.Inputs
import MutationInput.Proofs.Json.Values

/-!
# The command that lists fields

The command reads the document, loads it, looks the operation up, reads the variables and resolves
the field, and stops at the first of these steps that fails. `ProvidedOptions.Fails` says of an
error that it is that of the first step to fail, and `ProvidedOptions.Provides` that all steps
succeed; the outcome follows one or the other, `provided_refines`. What is printed in the end is
read back as the fields that were found, `ProvidedFields.isReadFrom_pretty`.
-/
namespace MutationInput

/-! ## What is printed -/

namespace ProvidedFields

end ProvidedFields

/-! ## The steps of the command -/

namespace CommandLine

namespace ProvidedOptions

variable (o : ProvidedOptions) (files : FileSystem)

/-- What is resolved: the requested arguments or all, and whether variables have to be bound. -/
def inspection : Inspection :=
  (Inspection.all.request o.arguments).requiring o.requireBound

/-- The resolver runs for the field of the options. -/
def context (op : Operation) (given : Option Variables) : Context :=
  ⟨some op, some o.field, given.getD Dict.empty⟩

/-- The document is read and loaded, and holds the operation. -/
def Selects (op : Operation) : Prop :=
  ∃ d, files.Parses Document.parse o.document d ∧ d.operation o.operationName = .ok op

/-- Every step succeeds, and the last one gives `p`. -/
def Provides (p : ProvidedFields) : Prop :=
  ∃ op given, o.Selects files op ∧ files.Gives o.variablesFile given ∧
    (o.inspection.resolve (o.context op given)).result = .ok p

/-- A step fails after the steps before it have succeeded. -/
inductive Fails : CommandError → Prop where
  | document {e : ReadError}
      (fails : files.FailsToParse Document.parse (fun _ => .invalidDocument o.document)
        o.document e) :
      Fails (.read e)
  | lookup {d : Document} {e : LookupError} (document : files.Parses Document.parse o.document d)
      (fails : d.operation o.operationName = .error e) : Fails (.lookup o.document e)
  | bindings {op : Operation} {e : ReadError} (selects : o.Selects files op)
      (fails : files.FailsToGive o.variablesFile e) : Fails (.read e)
  | resolve {op : Operation} {given : Option Variables} {e : ProvidedError}
      (selects : o.Selects files op) (gives : files.Gives o.variablesFile given)
      (fails : (o.inspection.resolve (o.context op given)).result = .error e) :
      Fails (.resolve o.field e)

variable {o files}

variable (o files)

end ProvidedOptions

end CommandLine

end MutationInput
