import MutationInput.Document
import MutationInput.Text.Quoted
import MutationInput.Variables

/-!
# Reading documents and variables from files

A path leads to a file or to something else, and a file can be read or not. The content of a file
has to be UTF-8 throughout.
-/
namespace MutationInput

/-- What a path leads to. -/
inductive FileEntry where
  /-- No file: nothing, or a directory. -/
  | notFile
  /-- A file that cannot be read, and why. -/
  | unreadable (reason : String)
  | content (bytes : List UInt8)
  deriving DecidableEq, Repr

/-- What every path leads to. -/
abbrev FileSystem := String → FileEntry

/-- Why a file did not give what was wanted. -/
inductive ReadError where
  /-- The path does not lead to a file. -/
  | notFile (path : String)
  /-- The file cannot be read. -/
  | unreadable (path reason : String)
  /-- The content is not UTF-8. -/
  | notUtf8 (path : String)
  /-- The content is not a document that can be loaded. -/
  | invalidDocument (path : String) (e : BuildError)
  /-- The content is not a JSON object. -/
  | invalidVariables (path text : String) (fault : Json.Fault)
  deriving DecidableEq, Repr

/-- The message of an error. -/
def ReadError.message (lib : Library) : ReadError → String
  | .notFile path => "Path " ++ Text.quoted path ++ " is not a file"
  | .unreadable path reason => "Failed to read file at " ++ Text.quoted path ++ ": " ++ reason
  | .notUtf8 path => "File at " ++ Text.quoted path ++ " is not valid UTF-8"
  | .invalidDocument path e =>
    "Invalid GraphQL document at " ++ Text.quoted path ++ ": " ++ e.message lib
  | .invalidVariables path text _ =>
    "Invalid variables JSON at " ++ Text.quoted path ++ ": " ++ lib.variablesFault text

namespace FileSystem

/-- The text of a file. -/
def readText (files : FileSystem) (path : String) : Except ReadError String :=
  match files path with
  | .notFile => .error (.notFile path)
  | .unreadable reason => .error (.unreadable path reason)
  | .content bytes =>
    match Text.decode? bytes with
    | some text => .ok text
    | none => .error (.notUtf8 path)

/-- The document in a file, and the events of loading it. -/
def readDocument (files : FileSystem) (path : String) : Logged (Except ReadError Document) :=
  match files.readText path with
  | .error e => .silent (.error e)
  | .ok text =>
    let l := Document.parseLogged text
    ⟨l.events, l.result.mapError (.invalidDocument path)⟩

/-- The variables in a file. -/
def readVariables (files : FileSystem) (path : String) : Except ReadError Variables := do
  let text ← files.readText path
  (Variables.parse text).mapError (.invalidVariables path text)

end FileSystem

/-! ## Directories -/

/-- What stands in a directory: a file or a directory, by its path from there. -/
structure Directory where
  files : List (List String × FileEntry)

namespace Directory

/-- Whether a path from the directory leads to a directory. -/
def isDirectory (d : Directory) (path : List String) : Bool :=
  path.isEmpty || d.files.any fun f =>
    (f.1 == path && f.2 == .notFile) || (path.isPrefixOf f.1 && path != f.1)

/-- What the names of a path lead to from the place `at`. Every name but the last has to lead to a
directory, and nothing is found above the directory itself. -/
def walk (d : Directory) («at» : List String) : List String → FileEntry
  | [] => (d.files.lookup «at»).getD .notFile
  | name :: rest =>
    if !d.isDirectory «at» then .notFile
    else if name = "" ∨ name = "." then
      if rest.isEmpty then .notFile else d.walk «at» rest
    else if name = ".." then
      if «at».isEmpty then .notFile else d.walk «at».dropLast rest
    else d.walk («at» ++ [name]) rest

/-- The names of a path. -/
def names (path : String) : List String :=
  path.splitOn "/"

/-- The greatest length of a path in bytes. -/
def maxPath : Nat := 4095

/-- The files that paths lead to when they start in the directory. A path that is too long leads
nowhere. -/
def fileSystem (d : Directory) : FileSystem := fun path =>
  if path.isEmpty || path.startsWith "/" || maxPath < path.utf8ByteSize then .notFile
  else d.walk [] (names path)

end Directory

end MutationInput
