import MutationInput.Proofs.Provided.Entries
import Mathlib.Data.List.Forall2

/-!
# What a resolution does not depend on

Two resolutions have the same result if the selections of their field agree, one by one, in the
shapes of the arguments that are inspected (`resolve_noninterference`). The shape of a value is the
names of an object literal, the name and the binding's shape of a variable, or the kind of any other
literal. All else may differ: what the fields hold, aliases, locations, nested selections, other
selections, and the order of the names in a mapping.
-/
namespace MutationInput

/-- A variable has no binding in either of two sets of bindings, or in both a mapping of the same
names, or in both another value of the same kind. -/
inductive Variables.Agree (b₁ b₂ : Variables) (name : String) : Prop where
  | absent (left : b₁.get? name = none) (right : b₂.get? name = none) : Agree b₁ b₂ name
  | mappings {m₁ m₂ : List (String × Binding)} (left : b₁.get? name = some (.mapping m₁))
      (right : b₂.get? name = some (.mapping m₂))
      (keys : ∀ k, k ∈ m₁.map Prod.fst ↔ k ∈ m₂.map Prod.fst) : Agree b₁ b₂ name
  | plain {x y : Binding} (left : b₁.get? name = some x) (right : b₂.get? name = some y)
      (not_left : ∀ entries, x ≠ .mapping entries) (not_right : ∀ entries, y ≠ .mapping entries)
      (kind : x.kind = y.kind) : Agree b₁ b₂ name

/-- Two values are object literals of the same names in the same order, references to the same
variable, on which the bindings agree, or other literals of the same kind. -/
inductive Value.SameShape (b₁ b₂ : Variables) : Value → Value → Prop where
  | object {xs ys : List (String × Value)}
      (names : (xs.map Prod.fst).eraseDups = (ys.map Prod.fst).eraseDups) :
      SameShape b₁ b₂ (.object xs) (.object ys)
  | reference {name : String} (agree : Variables.Agree b₁ b₂ name) :
      SameShape b₁ b₂ (.variable name) (.variable name)
  | literal {v w : Value} (left_not_object : ∀ fields, v ≠ .object fields)
      (left_not_variable : ∀ name, v ≠ .variable name)
      (right_not_object : ∀ fields, w ≠ .object fields)
      (right_not_variable : ∀ name, w ≠ .variable name) (kind : v.kind = w.kind) :
      SameShape b₁ b₂ v w

/-- Two selections pass the same of the requested arguments with values of the same shapes, or, if
none is requested, the same arguments in the same order with values of the same shapes. -/
def Field.SameArguments (b₁ b₂ : Variables) (names : List String) (s t : Field) : Prop :=
  if names = [] then
    List.Forall₂ (fun x y => x.1 = y.1 ∧ Value.SameShape b₁ b₂ x.2 y.2)
      s.arguments.entries t.arguments.entries
  else
    ∀ name ∈ names, Option.Rel (Value.SameShape b₁ b₂) (s.argument? name) (t.argument? name)

/-- Two occurrences are of the same argument with values of the same shape. -/
def Occurrence.SameShape (b₁ b₂ : Variables) (o o' : Occurrence) : Prop :=
  o.argument = o'.argument ∧ Value.SameShape b₁ b₂ o.value o'.value

/-- An inspection of a variable is the same for bindings that agree on it. -/
theorem Inspection.inspect_agree {r : Inspection} {b₁ b₂ : Variables} {name : String}
    (h : Variables.Agree b₁ b₂ name) (argument : String) :
    r.inspect b₁ argument (.variable name) = r.inspect b₂ argument (.variable name) := by
  cases h with
  | absent left right => rw [inspect_unbound left, inspect_unbound right]
  | mappings left right keys =>
      rw [inspect_bound left, inspect_bound right]
      simp only [Binding.entries?, sortNames_keys_eq keys]
  | plain left right not_left not_right kind =>
      simp only [inspect_bound left, inspect_bound right, Binding.entries?_eq_none not_left,
        Binding.entries?_eq_none not_right, kind]

/-- An inspection finds the same in values of the same shape. -/
theorem result_inspect_sameShape {r : Inspection} {b₁ b₂ : Variables} {v w : Value}
    (h : Value.SameShape b₁ b₂ v w) (argument : String) :
    (r.inspect b₁ argument v).result = (r.inspect b₂ argument w).result := by
  cases h with
  | object names => rw [Inspection.result_inspect_object, Inspection.result_inspect_object, names]
  | reference agree => rw [Inspection.inspect_agree agree]
  | literal left_object left_variable right_object right_variable kind =>
      rw [Inspection.result_inspect_other left_object left_variable,
        Inspection.result_inspect_other right_object right_variable, kind]

/-- Selections that pass the same arguments have the same occurrences, up to shape. -/
theorem Field.occurrences_sameShape {b₁ b₂ : Variables} {names : List String} {s t : Field}
    (h : s.SameArguments b₁ b₂ names t) :
    List.Forall₂ (Occurrence.SameShape b₁ b₂) (s.occurrences names.eraseDups)
      (t.occurrences names.eraseDups) := by
  refine Field.forall₂_occurrences ?_
  simpa only [Field.SameArguments, Dict.eraseDups_eq_nil_iff, List.mem_eraseDups] using h

/-- Resolutions do not tell apart operations and bindings that agree in the shapes of the arguments
that are inspected. -/
theorem resolve_noninterference {ctx₁ ctx₂ : Context} {op₁ op₂ : Operation} {fieldName : String}
    {names : List String} {require : Bool}
    (hop₁ : ctx₁.operation = some op₁) (hop₂ : ctx₂.operation = some op₂)
    (hk₁ : op₁.kind = .mutation) (hk₂ : op₂.kind = .mutation)
    (hf₁ : ctx₁.fieldName = some fieldName) (hf₂ : ctx₂.fieldName = some fieldName)
    (hsame : List.Forall₂ (Field.SameArguments ctx₁.bindings ctx₂.bindings names)
      (op₁.selected fieldName) (op₂.selected fieldName)) :
    (((Inspection.all.request names).requiring require).resolve ctx₁).result =
      (((Inspection.all.request names).requiring require).resolve ctx₂).result := by
  have hnone : op₁.selected fieldName = [] ↔ op₂.selected fieldName = [] := by
    rw [← List.length_eq_zero_iff, hsame.length_eq, List.length_eq_zero_iff]
  have hoccurrences : List.Forall₂ (Occurrence.SameShape ctx₁.bindings ctx₂.bindings)
      (op₁.occurrences fieldName names.eraseDups) (op₂.occurrences fieldName names.eraseDups) :=
    List.rel_flatMap hsame fun _ _ h => Field.occurrences_sameShape h
  rw [Inspection.result_resolve hop₁ hk₁ hf₁, Inspection.result_resolve hop₂ hk₂ hf₂]
  simp only [hnone, Inspection.requiring, Inspection.requested_all_request]
  congr 1
  refine Inspection.gather_congr (hoccurrences.imp ?_) Dict.empty
  rintro o o' ⟨hargument, hshape⟩
  exact ⟨hargument, hargument ▸ result_inspect_sameShape hshape o.argument⟩

/-- A mutation with the same two inputs as `savesTwice`, and little else in common with it. -/
def Operation.savesElsewhere : Operation :=
  { kind := .mutation, name := some "Again", location := ⟨9, 1⟩, declared := ["patch", "unused"]
    selections := [
      .spread "parts" ⟨10, 3⟩,
      .field ⟨none, "save", ⟨11, 3⟩, Dict.ofList
        [("extra", .variable "patch"), ("verbose", .boolean true),
          ("input", .object [("id", .list []), ("name", .variable "unused")])]⟩
        [.field (Field.named "id") []],
      .inline none ⟨12, 3⟩
        [.field ⟨none, "save", ⟨13, 5⟩, Dict.ofList [("input", .int 1)]⟩ []],
      .field ⟨some "again", "save", ⟨14, 3⟩, Dict.ofList
        [("extra", .object [("note", .int 7)]), ("input", .variable "missing")]⟩ []] }

/-- Bindings with the names of `patch` in another order and with other values. -/
def Variables.patchReordered : Variables :=
  Dict.ofList [("unused", .list []),
    ("patch", .mapping [("body", .scalar (.string "b")), ("title", .list [])])]

/-- The two mutations have the same result when the two inputs are requested. -/
theorem resolve_savesElsewhere :
    List.Forall₂ (Field.SameArguments Variables.patch Variables.patchReordered ["extra", "input"])
      (Operation.savesTwice.selected "save") (Operation.savesElsewhere.selected "save") ∧
    (((Inspection.all.request ["extra", "input"]).requiring false).resolve
        ⟨some Operation.savesTwice, some "save", Variables.patch⟩).result =
      (((Inspection.all.request ["extra", "input"]).requiring false).resolve
        ⟨some Operation.savesElsewhere, some "save", Variables.patchReordered⟩).result := by
  have hpatch : Variables.Agree Variables.patch Variables.patchReordered "patch" := by
    refine .mappings rfl rfl ?_
    intro k
    simp [or_comm]
  have hmissing : Variables.Agree Variables.patch Variables.patchReordered "missing" :=
    .absent rfl rfl
  have hsame : List.Forall₂
      (Field.SameArguments Variables.patch Variables.patchReordered ["extra", "input"])
      (Operation.savesTwice.selected "save") (Operation.savesElsewhere.selected "save") := by
    refine .cons ?_ (.cons ?_ .nil)
    · rw [Field.SameArguments, if_neg (by simp)]
      intro name hname
      obtain rfl | rfl : name = "extra" ∨ name = "input" := by simpa using hname
      · exact .some (.reference hpatch)
      · exact .some (.object rfl)
    · rw [Field.SameArguments, if_neg (by simp)]
      intro name hname
      obtain rfl | rfl : name = "extra" ∨ name = "input" := by simpa using hname
      · exact .some (.object rfl)
      · exact .some (.reference hmissing)
  exact ⟨hsame, resolve_noninterference rfl rfl rfl rfl rfl rfl hsame⟩

end MutationInput
