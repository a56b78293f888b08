import MutationInput.Proofs.Loading.Failures

/-!
# The order in which definitions are listed

A tree may list its operations in any order, as a parser that keeps them by name does. Where no two
of them have the same location there is one strictly increasing order of them, in which they are
loaded whatever the tree lists first (`Tree.Document.ordered_eq_of_perm`). So the result does not
depend on the listing, be it a document or an error: `Document.load_eq_of_perm`.
-/
namespace MutationInput

namespace Tree.Document

variable {d d' : Document}

/-- The locations of operations that do not share any increase strictly along their order. -/
theorem pairwise_precedes_ordered (hnodup : (d.operations.map Operation.location).Nodup) :
    (d.ordered.map Operation.location).Pairwise Location.Precedes := by
  have hperm : d.ordered.Perm d.operations := List.mergeSort_perm _ _
  have hle : (d.ordered.map Operation.location).Pairwise fun a b => a.le b = true :=
    List.pairwise_map.mpr (MutationInput.Document.pairwise_ordered d)
  have hne : (d.ordered.map Operation.location).Pairwise (· ≠ ·) :=
    (hperm.map Operation.location).nodup_iff.mpr hnodup
  exact (hle.and hne).imp fun h => Location.precedes_of_le_of_ne h.1 h.2

/-- Trees that list the same operations, none at the location of another, have the same order. -/
theorem ordered_eq_of_perm (hnodup : (d.operations.map Operation.location).Nodup)
    (hperm : d'.operations.Perm d.operations) : d'.ordered = d.ordered := by
  have hordered : d.ordered.Perm d.operations := List.mergeSort_perm _ _
  have hordered' : d'.ordered.Perm d.operations := (List.mergeSort_perm _ _).trans hperm
  refine List.Perm.eq_of_pairwise ?_ (MutationInput.Document.pairwise_ordered d')
    (MutationInput.Document.pairwise_ordered d) (hordered'.trans hordered.symm)
  intro a b ha hb hab hba
  exact List.inj_on_of_nodup_map hnodup (hordered'.mem_iff.mp ha) (hordered.mem_iff.mp hb)
    (Location.le_antisymm hab hba)

end Tree.Document

namespace Document

/-- What comes of definitions that are loaded one after the other: operations that mirror them one
by one, or the error of the first definition that is refused. -/
inductive Loads (definitions : List Tree.Operation) : Except BuildError Document → Prop where
  | loaded {doc : Document} (distinct : ∀ definition ∈ definitions, definition.Distinct)
      (mirrors : List.Forall₂ Operation.Mirrors definitions doc.operations) :
      Loads definitions (.ok doc)
  | refused {before after : List Tree.Operation} {definition : Tree.Operation} {e : BuildError}
      (split : definitions = before ++ definition :: after)
      (earlier : ∀ definition ∈ before, definition.Distinct) (refused : definition.Refused e) :
      Loads definitions (.error e)

/-- Operations are loaded in the order of their locations. -/
theorem loads_ordered (d : Tree.Document) : Loads d.ordered (load d) := by
  cases h : load d with
  | ok doc =>
      have hloaded := load_eq_ok_iff.mp h
      refine .loaded (fun definition hmem => ?_) ?_
      · exact Operation.exists_load_iff.mp (exists_of_mem_forall₂ hloaded hmem)
      · exact hloaded.imp fun _ _ hop => (Operation.mirrors_of_load hop).2
  | error e =>
      rw [load, map_eq_error_iff, loadAll_eq_mapM, mapM_eq_error_iff] at h
      simp only [Operation.exists_load_iff, Operation.load_eq_error_iff] at h
      obtain ⟨before, definition, after, hsplit, hearlier, hrefused⟩ := h
      exact .refused hsplit hearlier hrefused

/-- Operations of which no two have the same location are loaded in the one order in which their
locations increase strictly, however a tree lists them and whatever fragments it has. -/
theorem load_eq_of_perm {d : Tree.Document}
    (hnodup : (d.operations.map Tree.Operation.location).Nodup) :
    ∃ definitions : List Tree.Operation, definitions.Perm d.operations ∧
      (definitions.map Tree.Operation.location).Pairwise Location.Precedes ∧
      ∀ d' : Tree.Document, d'.operations.Perm d.operations →
        load d' = load d ∧ Loads definitions (load d') := by
  refine ⟨d.ordered, List.mergeSort_perm _ _, Tree.Document.pairwise_precedes_ordered hnodup, ?_⟩
  intro d' hperm
  have hordered := Tree.Document.ordered_eq_of_perm hnodup hperm
  refine ⟨?_, ?_⟩
  · rw [load, load, hordered]
  · rw [← hordered]
    exact loads_ordered d'

end Document

/-- A query at the start of a line that declares a variable twice. -/
def Tree.Operation.declaringTwice (name : String) (line : Nat) : Tree.Operation where
  kind := .query
  name := some name
  location := ⟨line, 1⟩
  definitions := [⟨"a", ⟨line, 9⟩, [], none⟩, ⟨"a", ⟨line, 18⟩, [], none⟩]
  directives := []
  selections := []

/-- Of two operations that are refused, the one on the earlier line decides the error, even if the
tree lists it last. -/
theorem load_eq_of_perm_declaringTwice :
    let d : Tree.Document := ⟨[.declaringTwice "B" 2, .declaringTwice "A" 1], []⟩
    let d' : Tree.Document := ⟨[.declaringTwice "A" 1, .declaringTwice "B" 2], []⟩
    (d.operations.map Tree.Operation.location).Nodup ∧ d'.operations.Perm d.operations ∧
      Document.load d' = Document.load d ∧
      Document.load d = .error (.duplicateVariable "a" ⟨1, 18⟩) := by
  intro d d'
  have hnodup : (d.operations.map Tree.Operation.location).Nodup := by decide
  have hperm : d'.operations.Perm d.operations := List.Perm.swap _ _ _
  obtain ⟨_, -, -, hload⟩ := Document.load_eq_of_perm hnodup
  have hrefused : Document.load d = .error (.duplicateVariable "a" ⟨1, 18⟩) := by
    rw [Document.load, Document.ordered_pair]
    rfl
  exact ⟨hnodup, hperm, (hload d' hperm).1, hrefused⟩

end MutationInput
