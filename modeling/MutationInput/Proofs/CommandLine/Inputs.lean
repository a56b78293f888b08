import MutationInput.CommandLine.Run
import MutationInput.Proofs.Network
import MutationInput.Proofs.Steps

/-!
# What a command reads

A file is read as a text, and the text is parsed: `FileSystem.Parses` says that both succeed and
`FileSystem.FailsToParse` which of the two fails and how. Documents and variables are read in this
way, and variables only if a file is given for them.
-/
namespace MutationInput

namespace FileSystem

variable {α ε : Type} (files : FileSystem) (parse : String → Except ε α)
  (wrap : String → ε → ReadError)

/-- The text of a file is parsed to `x`. -/
def Parses (path : String) (x : α) : Prop :=
  ∃ text, files.readText path = .ok text ∧ parse text = .ok x

/-- A file has no text, or a text that is not parsed. -/
inductive FailsToParse (path : String) : ReadError → Prop where
  | unread {e : ReadError} (read : files.readText path = .error e) : FailsToParse path e
  | unparsed {text : String} {e : ε} (read : files.readText path = .ok text)
      (parse : parse text = .error e) : FailsToParse path (wrap text e)

/-- The text of a file as it is parsed. -/
def parseFile (path : String) : Except ReadError α :=
  files.readText path >>= fun text => (parse text).mapError (wrap text)

theorem parseFile_eq_error_iff {path : String} {e : ReadError} :
    files.parseFile parse wrap path = .error e ↔ files.FailsToParse parse wrap path e := by
  simp only [parseFile, bind_eq_error_iff, mapError_eq_error_iff]
  constructor
  · rintro (read | ⟨text, read, e, hparse, rfl⟩)
    · exact .unread read
    · exact .unparsed read hparse
  · rintro (read | ⟨read, hparse⟩)
    · exact .inl read
    · exact .inr ⟨_, read, _, hparse, rfl⟩

theorem readVariables_eq (path : String) :
    files.readVariables path =
      files.parseFile Variables.parse (.invalidVariables path) path := rfl

/-- The variables of a command: none if no file is given for them. -/
inductive Gives : Option String → Option Variables → Prop where
  | nothing : Gives none none
  | file {path : String} {v : Variables} (parses : files.Parses Variables.parse path v) :
      Gives (some path) (some v)

/-- A file is given for the variables, and does not hold any. -/
inductive FailsToGive : Option String → ReadError → Prop where
  | file {path : String} {e : ReadError}
      (fails : files.FailsToParse Variables.parse (.invalidVariables path) path e) :
      FailsToGive (some path) e

end FileSystem

namespace CommandLine

variable {files : FileSystem}

theorem readVariables?_eq_error_iff {path? : Option String} {e : CommandError} :
    readVariables? files path? = .error e ↔ ∃ e', files.FailsToGive path? e' ∧ .read e' = e := by
  cases path? with
  | none =>
      constructor
      · intro h
        cases h
      · rintro ⟨_, ⟨⟩, -⟩
  | some path =>
      simp only [readVariables?, map_eq_error_iff, mapError_eq_error_iff,
        FileSystem.readVariables_eq, FileSystem.parseFile_eq_error_iff]
      constructor
      · rintro ⟨e', fails, rfl⟩
        exact ⟨e', .file fails, rfl⟩
      · rintro ⟨e', ⟨fails⟩, rfl⟩
        exact ⟨e', fails, rfl⟩

end CommandLine

end MutationInput
