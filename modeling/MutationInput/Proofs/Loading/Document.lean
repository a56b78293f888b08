import MutationInput.Document
import MutationInput.Proofs.Loading.Selection
import MutationInput.Proofs.Location
import Mathlib.Data.List.Nodup

/-!
# Loading documents

A document loads exactly if no operation declares a variable twice and no field selected in an
operation, at whatever depth, passes an argument twice. What is loaded has one operation for each
definition, which mirrors the definition, and no fragment definition has a part in it.
-/
namespace MutationInput

/-- No variable is declared twice, and no field that is selected passes an argument twice. -/
structure Tree.Operation.Distinct (op : Tree.Operation) : Prop where
  declared : (op.definitions.map Tree.VariableDefinition.name).Nodup
  arguments : ∀ f, Tree.Selects op.selections f → (f.arguments.map Prod.fst).Nodup

/-- A loaded operation has the kind, the name and the location of its definition, declares the same
variables in order, and has selections that mirror those of the definition at every depth. -/
structure Operation.Mirrors (definition : Tree.Operation) (op : Operation) : Prop where
  kind : op.kind = definition.kind
  name : op.name = definition.name
  location : op.location = definition.location
  declared : op.declared = definition.definitions.map Tree.VariableDefinition.name
  selections : List.Forall₂ Selection.Mirrors definition.selections op.selections

/-! ## Operations -/

/-- Declared variables are accepted if none was seen before and none comes twice, and then their
names are added to those seen. -/
theorem loadVariables_eq_ok_iff {seen declared : List String}
    {definitions : List Tree.VariableDefinition} (hseen : seen.Nodup) :
    loadVariables seen definitions = .ok declared ↔
      (seen ++ definitions.map Tree.VariableDefinition.name).Nodup ∧
        declared = seen ++ definitions.map Tree.VariableDefinition.name := by
  induction definitions generalizing seen with
  | nil =>
      simp only [loadVariables, Except.ok.injEq, List.map_nil, List.append_nil]
      exact ⟨fun h => ⟨hseen, h.symm⟩, fun h => h.2.symm⟩
  | cons v rest ih =>
      rw [loadVariables]
      by_cases hv : v.name ∈ seen
      · rw [if_pos (List.contains_iff_mem.mpr hv)]
        constructor
        · intro h
          cases h
        · rintro ⟨hnodup, -⟩
          exact absurd rfl ((List.nodup_append.mp hnodup).2.2 v.name hv v.name (by simp))
      · have hnext : (seen ++ [v.name]).Nodup := by
          rw [← List.concat_eq_append]
          exact List.Nodup.concat hv hseen
        rw [if_neg (by simpa using hv), ih hnext]
        simp

namespace Operation

/-- What is loaded mirrors its definition, and the names in the definition are distinct. -/
theorem mirrors_of_load {definition : Tree.Operation} {op : Operation}
    (h : Operation.load definition = .ok op) :
    definition.Distinct ∧ Operation.Mirrors definition op := by
  simp only [Operation.load, bind_eq_ok_iff] at h
  obtain ⟨declared, hd, selections, hs, h⟩ := h
  obtain rfl := Except.ok.inj h
  obtain ⟨hnodup, rfl⟩ := (loadVariables_eq_ok_iff List.nodup_nil).mp hd
  exact ⟨⟨hnodup, fun _ hf => nodup_of_loadSelections hs hf⟩, rfl, rfl, rfl, rfl,
    mirrors_of_loadSelections hs⟩

/-- An operation loads if its names are distinct. -/
theorem exists_load {definition : Tree.Operation} (h : definition.Distinct) :
    ∃ op, Operation.load definition = .ok op := by
  have hd : loadVariables [] definition.definitions =
      .ok (definition.definitions.map Tree.VariableDefinition.name) :=
    (loadVariables_eq_ok_iff List.nodup_nil).mpr ⟨h.declared, rfl⟩
  obtain ⟨selections, hs⟩ := exists_loadSelections h.arguments
  simp only [Operation.load, bind_eq_ok_iff]
  exact ⟨_, _, hd, selections, hs, rfl⟩

end Operation

/-! ## Documents -/

namespace Document

theorem loadAll_eq_mapM (ops : List Tree.Operation) : loadAll ops = ops.mapM Operation.load := by
  induction ops with
  | nil => rfl
  | cons op ops ih => rw [loadAll, List.mapM_cons, ih]

/-- The operations are loaded in the order of their locations. -/
theorem pairwise_ordered (d : Tree.Document) :
    d.ordered.Pairwise fun a b => a.location.le b.location = true := by
  apply List.pairwise_mergeSort
  · intro a b c hab hbc
    rw [Location.le_iff] at hab hbc ⊢
    omega
  · intro a b
    rw [Bool.or_eq_true, Location.le_iff, Location.le_iff]
    omega

/-- The order of two operations. -/
theorem ordered_pair (a b : Tree.Operation) (fragments : List Tree.Fragment) :
    (⟨[a, b], fragments⟩ : Tree.Document).ordered =
      if a.location.le b.location then [a, b] else [b, a] := by
  simp [Tree.Document.ordered, List.mergeSort, List.MergeSort.Internal.splitInTwo, List.merge]

theorem load_eq_ok_iff {d : Tree.Document} {doc : Document} :
    load d = .ok doc ↔
      List.Forall₂ (fun definition op => Operation.load definition = .ok op) d.ordered
        doc.operations := by
  rw [load, loadAll_eq_mapM, ← mapM_eq_ok_iff]
  cases d.ordered.mapM Operation.load with
  | error e =>
      constructor
      · intro h
        cases h
      · intro h
        cases h
  | ok ops =>
      constructor
      · intro h
        cases h
        rfl
      · intro h
        cases h
        rfl

/-- A document loads exactly if the names in each of its operations are distinct. Then its
operations mirror the definitions one by one, in the order of their locations. The fragment
definitions do not matter. -/
theorem load_mirrors (d : Tree.Document) :
    ((∃ doc, load d = .ok doc) ↔ ∀ definition ∈ d.operations, definition.Distinct) ∧
      (∀ doc, load d = .ok doc → ∃ definitions : List Tree.Operation,
        definitions.Perm d.operations ∧
          definitions.Pairwise (fun a b => a.location.le b.location = true) ∧
          List.Forall₂ Operation.Mirrors definitions doc.operations) ∧
      ∀ fragments, load { d with fragments := fragments } = load d := by
  have hperm : d.ordered.Perm d.operations := List.mergeSort_perm _ _
  refine ⟨⟨?_, ?_⟩, ?_, fun _ => rfl⟩
  · rintro ⟨doc, h⟩ definition hmem
    obtain ⟨op, hop⟩ := exists_of_mem_forall₂ (load_eq_ok_iff.mp h) (hperm.mem_iff.mpr hmem)
    exact (Operation.mirrors_of_load hop).1
  · intro h
    obtain ⟨ops, hops⟩ := exists_mapM_eq_ok fun definition hmem =>
      Operation.exists_load (h definition (hperm.mem_iff.mp hmem))
    exact ⟨⟨ops⟩, load_eq_ok_iff.mpr (mapM_eq_ok_iff.mp hops)⟩
  · intro doc h
    exact ⟨d.ordered, hperm, pairwise_ordered d,
      (load_eq_ok_iff.mp h).imp fun _ _ hop => (Operation.mirrors_of_load hop).2⟩

end Document

/-- A mutation that saves, with a field below an inline fragment that passes two arguments, and a
fragment with a field that passes an argument twice. -/
def Tree.Document.saves (second : String) : Tree.Document where
  operations := [⟨.mutation, some "Save", ⟨1, 1⟩, [⟨"patch", ⟨1, 15⟩, [], none⟩], [], [
    .field ⟨none, "save", ⟨2, 3⟩, [("input", .variable "patch")], []⟩ [
      .inline (some "Note") ⟨3, 5⟩ [] [
        .field ⟨some "first", "tag", ⟨4, 7⟩, [("id", .null), (second, .null)], []⟩ []]]]⟩]
  fragments := [⟨"Tags", "Note", [], [
    .field ⟨none, "tag", ⟨10, 3⟩, [("id", .null), ("id", .null)], []⟩ []]⟩]

/-- The argument that comes twice in the fragment does no harm; coming twice below the inline
fragment it would. -/
theorem load_mirrors_saves :
    (∃ doc, Document.load (Tree.Document.saves "key") = .ok doc ∧
      List.Forall₂ Operation.Mirrors (Tree.Document.saves "key").operations doc.operations) ∧
      ¬∃ doc, Document.load (Tree.Document.saves "id") = .ok doc := by
  constructor
  · have hordered : (Tree.Document.saves "key").ordered = (Tree.Document.saves "key").operations :=
      List.mergeSort_singleton _
    have hload : ∃ doc, Document.load (Tree.Document.saves "key") = .ok doc :=
      ⟨_, by rw [Document.load, hordered]; rfl⟩
    obtain ⟨doc, h⟩ := hload
    obtain ⟨definitions, hperm, -, hmirrors⟩ :=
      (Document.load_mirrors (Tree.Document.saves "key")).2.1 doc h
    obtain rfl := List.perm_singleton.mp hperm
    exact ⟨doc, h, hmirrors⟩
  · intro h
    have hdistinct := (Document.load_mirrors (Tree.Document.saves "id")).1.mp h _
      (List.mem_singleton.mpr rfl)
    have hnodup := hdistinct.arguments _ (.below_field (List.mem_singleton.mpr rfl)
      (.below_inline (List.mem_singleton.mpr rfl) (.here (List.mem_singleton.mpr rfl))))
    simp at hnodup

end MutationInput
