import MutationInput.Proofs.Provided.Entries

/-!
# Literals in place of variables

A variable that is bound to a mapping and a literal with the names of the mapping in ascending
order stand for the same fields. So an operation may be rewritten by writing such literals in place
of variables, in any arguments of any of its selections at the top level: every resolution has the
same result before and after (`resolve_inlines`).
-/
namespace MutationInput

/-- A value is kept, or it is a variable that is bound to a mapping and a literal takes its place
that has the names of the mapping in ascending order, with whatever values. -/
inductive Value.Inlines (bindings : Variables) : Value → Value → Prop where
  | keep (v : Value) : Inlines bindings v v
  | literal {name : String} {entries : List (String × Binding)} {fields : List (String × Value)}
      (binding : bindings.get? name = some (.mapping entries))
      (ascending : (fields.map Prod.fst).Pairwise (· < ·))
      (names : ∀ k, k ∈ fields.map Prod.fst ↔ k ∈ entries.map Prod.fst) :
      Inlines bindings (.variable name) (.object fields)

/-- A field of which some arguments are rewritten, each in its place. -/
def Field.Inlines (bindings : Variables) (s t : Field) : Prop :=
  ∃ rewritten : Dict Value, t = { s with arguments := rewritten } ∧
    List.Forall₂ (fun x y => x.1 = y.1 ∧ Value.Inlines bindings x.2 y.2)
      s.arguments.entries rewritten.entries

/-- A selection is kept, or it is of a field and that field is rewritten. -/
inductive Selection.Inlines (bindings : Variables) : Selection → Selection → Prop where
  | keep (s : Selection) : Inlines bindings s s
  | field {s t : Field} (nested : List Selection) (head : s.Inlines bindings t) :
      Inlines bindings (.field s nested) (.field t nested)

/-- An operation of which some selections at the top level are rewritten, each in its place. -/
def Operation.Inlines (bindings : Variables) (op op' : Operation) : Prop :=
  ∃ rewritten, op' = { op with selections := rewritten } ∧
    List.Forall₂ (Selection.Inlines bindings) op.selections rewritten

variable {bindings : Variables}

/-- The literal that takes the place of a variable provides the names that the variable does. -/
theorem result_inspect_inlines {r : Inspection} {v w : Value} (h : v.Inlines bindings w)
    (argument : String) :
    (r.inspect bindings argument v).result = (r.inspect bindings argument w).result := by
  cases h with
  | keep => rfl
  | @literal name entries fields binding ascending names =>
      have hprovides : (Value.variable name).Provides bindings (fields.map Prod.fst) :=
        .bound binding ascending names
      have hkeys : (fields.map Prod.fst).eraseDups = fields.map Prod.fst :=
        Dict.eraseDups_of_nodup (ascending.imp String.ne_of_lt)
      rw [Inspection.result_inspect_eq_some_iff.mpr hprovides, Inspection.result_inspect_object,
        hkeys]

theorem Field.Inlines.refl (s : Field) : s.Inlines bindings s :=
  ⟨s.arguments, rfl, List.forall₂_same.mpr fun _ _ => ⟨rfl, .keep _⟩⟩

theorem Field.Inlines.name_eq {s t : Field} (h : s.Inlines bindings t) : s.name = t.name := by
  obtain ⟨rewritten, rfl, -⟩ := h
  rfl

theorem Field.Inlines.occurrences {s t : Field} (h : s.Inlines bindings t)
    (requested : List String) :
    List.Forall₂ (fun o o' => o.argument = o'.argument ∧ Value.Inlines bindings o.value o'.value)
      (s.occurrences requested) (t.occurrences requested) := by
  obtain ⟨rewritten, rfl, hentries⟩ := h
  refine Field.forall₂_occurrences ?_
  split
  · exact hentries
  · exact fun name _ => Dict.rel_get? hentries name

/-- Rewriting selections neither adds nor removes one of a field. -/
theorem Operation.selectedAmong_inlines {xs ys : List Selection}
    (h : List.Forall₂ (Selection.Inlines bindings) xs ys) (fieldName : String) :
    List.Forall₂ (Field.Inlines bindings) (selectedAmong fieldName xs)
      (selectedAmong fieldName ys) := by
  induction h with
  | nil => exact .nil
  | @cons x y _ _ hxy _ ih =>
      cases hxy with
      | keep =>
          cases x with
          | field s nested =>
              simp only [selectedAmong]
              split
              · exact .cons (.refl s) ih
              · exact ih
          | spread fragment location => exact ih
          | inline condition location nested => exact ih
      | field nested head =>
          simp only [selectedAmong, head.name_eq]
          split
          · exact .cons head ih
          · exact ih

theorem Operation.Inlines.selected {op op' : Operation} (h : op.Inlines bindings op')
    (fieldName : String) :
    List.Forall₂ (Field.Inlines bindings) (op.selected fieldName) (op'.selected fieldName) := by
  obtain ⟨rewritten, rfl, hselections⟩ := h
  exact selectedAmong_inlines hselections fieldName

theorem Operation.Inlines.occurrences {op op' : Operation} (h : op.Inlines bindings op')
    (fieldName : String) (requested : List String) :
    List.Forall₂ (fun o o' => o.argument = o'.argument ∧ Value.Inlines bindings o.value o'.value)
      (op.occurrences fieldName requested) (op'.occurrences fieldName requested) :=
  List.rel_flatMap (h.selected fieldName) fun _ _ hs => hs.occurrences requested

/-- Writing literals in place of bound variables changes no result. -/
theorem resolve_inlines (r : Inspection) {ctx : Context} {op op' : Operation}
    (hop : ctx.operation = some op) (h : op.Inlines ctx.bindings op') :
    (r.resolve ctx).result = (r.resolve { ctx with operation := some op' }).result := by
  have hkind : op.kind = op'.kind := by
    obtain ⟨rewritten, rfl, -⟩ := h
    rfl
  refine Inspection.result_resolve_congr hop rfl hkind rfl ?_ ?_
  · intro fieldName
    exact (h.selected fieldName).length_eq
  · intro fieldName
    refine (h.occurrences fieldName r.requested).imp ?_
    rintro o o' ⟨hargument, hvalue⟩
    exact ⟨hargument, hargument ▸ result_inspect_inlines hvalue o.argument⟩

/-- The mutation `savesTwice` with a literal in one of the two places of its bound variable. -/
def Operation.savesInlined : Operation :=
  { Operation.savesTwice with
    selections := [
      .field ⟨some "first", "save", ⟨1, 12⟩, Dict.ofList
        [("input", .object [("id", .int 1), ("name", .null)]),
          ("extra", .object [("body", .list [.variable "patch"]), ("title", .int 2)]),
          ("tags", .variable "patch")]⟩ [],
      .field ⟨none, "load", ⟨2, 12⟩, Dict.ofList [("input", .object [("key", .int 1)])]⟩ [],
      .field ⟨none, "save", ⟨3, 12⟩, Dict.ofList
        [("limit", .int 3), ("input", .variable "missing"),
          ("extra", .object [("note", .null)])]⟩ []] }

/-- The two mutations are not told apart. Without a request of arguments both are refused, for the
variable without binding. -/
theorem resolve_savesInlined :
    Operation.savesTwice.Inlines Variables.patch Operation.savesInlined ∧
      ((Inspection.all.requiring true).resolve
          ⟨some Operation.savesTwice, some "save", Variables.patch⟩).result =
        ((Inspection.all.requiring true).resolve
          ⟨some Operation.savesInlined, some "save", Variables.patch⟩).result ∧
      ((Inspection.all.requiring true).resolve
          ⟨some Operation.savesTwice, some "save", Variables.patch⟩).result =
        .error (.unboundVariable "input" "missing") := by
  have hpatch : Value.Inlines Variables.patch (.variable "patch")
      (.object [("body", .list [.variable "patch"]), ("title", .int 2)]) :=
    .literal rfl (List.pairwise_pair.mpr (by decide)) (by simp [or_comm])
  have hinlines : Operation.savesTwice.Inlines Variables.patch Operation.savesInlined := by
    refine ⟨_, rfl, .cons (.field [] ⟨_, rfl, ?_⟩) (.cons (.keep _) (.cons (.keep _) .nil))⟩
    exact .cons ⟨rfl, .keep _⟩ (.cons ⟨rfl, hpatch⟩ (.cons ⟨rfl, .keep _⟩ .nil))
  exact ⟨hinlines, resolve_inlines (Inspection.all.requiring true) rfl hinlines, rfl⟩

end MutationInput
