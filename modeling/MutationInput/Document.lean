import MutationInput.Event
import MutationInput.Operation.Load

/-!
# Documents

A document is the list of its operations in the order of their locations; its fragment definitions
are left behind. An operation is looked up by name, or without one if it is the only one.
-/
namespace MutationInput

/-- The operations of a document. -/
structure Document where
  operations : List Operation
  deriving Inhabited

/-- Why no operation was found. -/
inductive LookupError where
  /-- No name was given and there are several operations. -/
  | ambiguous (found : Nat)
  /-- No name was given and there is no operation. -/
  | noOperations
  /-- No operation has the name. -/
  | notFound (name : String)
  deriving DecidableEq, Repr

/-- The message of a lookup error. -/
def LookupError.message : LookupError → String
  | .ambiguous found =>
    "Found " ++ toString found ++ " operations in document but no operation name was given."
  | .noOperations => "No operations found in document."
  | .notFound name => "No operation named `" ++ name ++ "` found in document."

/-- The operations of a tree, ordered by line and column. -/
def Tree.Document.ordered (d : Tree.Document) : List Tree.Operation :=
  d.operations.mergeSort fun a b => a.location.le b.location

namespace Document

/-- Loads operations in order. -/
def loadAll : List Tree.Operation → Except BuildError (List Operation)
  | [] => .ok []
  | op :: rest => do
    let x ← Operation.load op
    let xs ← loadAll rest
    return x :: xs

/-- Loads the operations of a document, in the order of their locations. -/
def load (d : Tree.Document) : Except BuildError Document :=
  (loadAll d.ordered).map Document.mk

/-- The document that a text denotes. -/
def parse (text : String) : Except BuildError Document :=
  match Tree.Document.parse text with
  | .error fault => .error (.unparsable text fault)
  | .ok d => load d

/-- The event of an operation that loads. -/
def loadEvent? (op : Tree.Operation) : Option Event :=
  match Operation.load op with
  | .ok op => some (.loaded op.kind op.name op.selections.length)
  | .error _ => none

/-- The events of loading a document: one for each operation before the first that fails, and if
none fails one for each fragment definition, in the order of their texts. -/
def loadEvents (d : Tree.Document) : List Event :=
  let loaded := d.ordered.map loadEvent?
  (loaded.takeWhile Option.isSome).filterMap id ++
    if loaded.all Option.isSome then
      (d.fragments.map fun f => Event.fragmentIgnored f.name).mergeSort fun a b => a.text ≤ b.text
    else []

/-- Loads a document and reports it. -/
def loadLogged (d : Tree.Document) : Logged (Except BuildError Document) :=
  ⟨loadEvents d, load d⟩

/-- Loads the document that a text denotes and reports it. -/
def parseLogged (text : String) : Logged (Except BuildError Document) :=
  match Tree.Document.parse text with
  | .error fault => .silent (.error (.unparsable text fault))
  | .ok d => loadLogged d

/-- The operation of a name, or the only operation if no name is given. -/
def operation (d : Document) : Option String → Except LookupError Operation
  | some name =>
    match d.operations.find? fun op => op.name == some name with
    | some op => .ok op
    | none => .error (.notFound name)
  | none =>
    match d.operations with
    | [] => .error .noOperations
    | [op] => .ok op
    | ops => .error (.ambiguous ops.length)

end Document

end MutationInput
