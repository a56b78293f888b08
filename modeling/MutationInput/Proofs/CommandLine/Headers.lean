import MutationInput.CommandLine.Run
import MutationInput.Proofs.Steps
import Mathlib.Data.List.TakeWhile

/-!
# Headers on the command line

A header is a name and a value around the first colon of a text, each without the blanks at its
ends. `Splits` says what they are, and `HeaderFails` when a text is no header: it has no colon, or
the name or the value is not one. The client gets the headers from left to right, and the first
text that is no header ends this, `client_eq_error_iff`.
-/
namespace MutationInput

/-! ## Names and values -/

namespace Http

/-- A text is the name of a header. -/
structure IsHeaderName (name : String) : Prop where
  ne_empty : name ≠ ""
  length_le : name.length ≤ maxHeaderName
  tokens : ∀ c ∈ name.toList, isTokenChar c = true

theorem isSome_headerName?_iff {name : String} :
    (headerName? name).isSome = true ↔ IsHeaderName name := by
  have hempty : name.toList = [] ↔ name = "" := by simp
  simp only [headerName?]
  constructor
  · intro h
    split at h
    · next hname =>
        simp only [Bool.and_eq_true, Bool.not_eq_true', List.isEmpty_eq_false_iff,
          decide_eq_true_eq, List.all_eq_true] at hname
        obtain ⟨⟨hne, hlength⟩, htokens⟩ := hname
        exact ⟨fun heq => hne (hempty.mpr heq), hlength, htokens⟩
    · cases h
  · rintro ⟨hne, hlength, htokens⟩
    have hne' : name.toList.isEmpty = false := by simpa using hne
    have hlength' : name.toList.length ≤ maxHeaderName := hlength
    have hall : name.toList.all isTokenChar = true := List.all_eq_true.mpr htokens
    simp [hne', hlength', hall]

theorem headerName?_eq_none_iff {name : String} :
    headerName? name = none ↔ ¬IsHeaderName name := by
  rw [← isSome_headerName?_iff, Bool.not_eq_true, Option.isSome_eq_false_iff,
    Option.isNone_iff_eq_none]

/-- A text is the value of a header. -/
def IsHeaderValue (value : String) : Prop :=
  ∀ c ∈ value.toList, isValueChar c = true

theorem isHeaderValue_iff {value : String} : isHeaderValue value = true ↔ IsHeaderValue value :=
  List.all_eq_true

end Http

namespace Client

/-- The name is looked at before the value. -/
theorem withHeader_eq_error_iff {c : Client} {name value : String} {e : TransportError} :
    c.withHeader name value = .error e ↔
      ¬Http.IsHeaderName name ∧ .invalidHeaderName name = e ∨
        Http.IsHeaderName name ∧ ¬Http.IsHeaderValue value ∧ .invalidHeaderValue name = e := by
  rw [← Http.headerName?_eq_none_iff, ← Http.isSome_headerName?_iff, ← Http.isHeaderValue_iff,
    withHeader]
  cases Http.headerName? name with
  | none => simp
  | some key => cases Http.isHeaderValue value <;> simp

end Client

/-! ## Splitting at the first colon -/

namespace Text

theorem splitFirst?_of_notMem {c : Char} {s : String} (h : c ∉ s.toList) :
    splitFirst? c s = none := by
  have hdrop : s.toList.dropWhile (· != c) = [] := by
    rw [List.dropWhile_eq_nil_iff]
    intro d hd
    have hne : d ≠ c := fun heq => h (heq ▸ hd)
    simpa using hne
  rw [splitFirst?, hdrop]

theorem splitFirst?_of_first {c : Char} {s : String} {before after : List Char} (h : c ∉ before)
    (hs : s.toList = before ++ c :: after) :
    splitFirst? c s = some (String.ofList before, String.ofList after) := by
  have hbefore : ∀ d ∈ before, (d != c) = true := by
    intro d hd
    have hne : d ≠ c := fun heq => h (heq ▸ hd)
    simpa using hne
  have hdrop : s.toList.dropWhile (· != c) = c :: after := by
    rw [hs, List.dropWhile_append_of_pos hbefore]
    simp
  have htake : s.toList.takeWhile (· != c) = before := by
    rw [hs, List.takeWhile_append_of_pos hbefore]
    simp
  rw [splitFirst?, hdrop, htake]

end Text

namespace CommandLine

/-- A text is a name and a value around its first colon. -/
inductive Splits (header : String) : String → String → Prop where
  | colon {before after : List Char} (first : ':' ∉ before)
      (parts : header.toList = before ++ ':' :: after) :
      Splits header (Text.trim (String.ofList before)) (Text.trim (String.ofList after))

/-- A text is no header, and why. -/
inductive HeaderFails (header : String) : CommandError → Prop where
  | noColon (none : ':' ∉ header.toList) : HeaderFails header (.malformedHeader header)
  | name {name value : String} (splits : Splits header name value)
      (invalid : ¬Http.IsHeaderName name) : HeaderFails header (.header (.invalidHeaderName name))
  | value {name value : String} (splits : Splits header name value)
      (valid : Http.IsHeaderName name) (invalid : ¬Http.IsHeaderValue value) :
      HeaderFails header (.header (.invalidHeaderValue name))

theorem Splits.mem {header name value : String} (h : Splits header name value) :
    ':' ∈ header.toList := by
  cases h with
  | colon first parts => simp [parts]

theorem exists_splits {header : String} (h : ':' ∈ header.toList) :
    ∃ name value, Splits header name value := by
  obtain ⟨before, after, parts, first⟩ := List.eq_append_cons_of_mem h
  exact ⟨_, _, .colon first parts⟩

namespace ExecuteOptions

theorem addHeader_of_splits {header name value : String} (h : Splits header name value)
    (c : Client) : addHeader c header = (c.withHeader name value).mapError .header := by
  cases h with
  | colon first parts => rw [addHeader, Text.splitFirst?_of_first first parts]

theorem addHeader_of_noColon {header : String} (h : ':' ∉ header.toList) (c : Client) :
    addHeader c header = .error (.malformedHeader header) := by
  rw [addHeader, Text.splitFirst?_of_notMem h]

/-- Whether and why a text is not added does not depend on the client. -/
theorem addHeader_eq_error_iff {c : Client} {header : String} {e : CommandError} :
    addHeader c header = .error e ↔ HeaderFails header e := by
  constructor
  · intro h
    by_cases hcolon : ':' ∈ header.toList
    · obtain ⟨name, value, hsplits⟩ := exists_splits hcolon
      rw [addHeader_of_splits hsplits, mapError_eq_error_iff] at h
      obtain ⟨e', he', rfl⟩ := h
      rcases Client.withHeader_eq_error_iff.mp he' with ⟨hname, rfl⟩ | ⟨hname, hvalue, rfl⟩
      · exact .name hsplits hname
      · exact .value hsplits hname hvalue
    · rw [addHeader_of_noColon hcolon] at h
      cases h
      exact .noColon hcolon
  · intro h
    cases h with
    | noColon none => exact addHeader_of_noColon none c
    | name splits invalid =>
        rw [addHeader_of_splits splits, Client.withHeader_eq_error_iff.mpr (.inl ⟨invalid, rfl⟩)]
        rfl
    | value splits valid invalid =>
        rw [addHeader_of_splits splits,
          Client.withHeader_eq_error_iff.mpr (.inr ⟨valid, invalid, rfl⟩)]
        rfl

variable {o : ExecuteOptions}

theorem exists_client_iff :
    (∃ c, o.client = .ok c) ↔ ∀ header ∈ o.headers, ∀ e, ¬HeaderFails header e :=
  exists_foldlM_eq_ok_iff (P := HeaderFails) fun _ _ _ => addHeader_eq_error_iff

/-- The first text that is no header decides. -/
theorem client_eq_error_iff {e : CommandError} :
    o.client = .error e ↔ ∃ before header after, o.headers = before ++ header :: after ∧
      (∀ h ∈ before, ∀ e', ¬HeaderFails h e') ∧ HeaderFails header e :=
  foldlM_eq_error_iff (P := HeaderFails) fun _ _ _ => addHeader_eq_error_iff

end ExecuteOptions

end CommandLine

end MutationInput
