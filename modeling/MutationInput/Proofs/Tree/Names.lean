import MutationInput.Tree.Document
import MutationInput.Proofs.Steps
import Mathlib.Data.List.Nodup

/-!
# The names in a document

Definitions make a document exactly if there is an operation among them, their names tell the
operations apart, and no two fragments share a name: `Document.ofDefinitions_eq_ok_iff`. The
operations and the fragments are then those among the definitions, in order.
-/
namespace MutationInput

/-- Names tell operations apart: no two are the same, and only an operation that stands alone may
have none. -/
structure NamesApart (names : List (Option String)) : Prop where
  named : names.length ≤ 1 ∨ none ∉ names
  nodup : names.Nodup

namespace NamesApart

variable {names names' : List (Option String)}

theorem perm (h : NamesApart names) (hperm : names.Perm names') : NamesApart names' where
  named := by
    rw [← hperm.length_eq, ← hperm.mem_iff]
    exact h.named
  nodup := hperm.nodup_iff.mp h.nodup

theorem of_append (h : NamesApart (names ++ names')) : NamesApart names where
  named := by
    refine h.named.imp ?_ ?_
    · intro hlength
      rw [List.length_append] at hlength
      omega
    · intro hnone hmem
      exact hnone (List.mem_append_left _ hmem)
  nodup := h.nodup.of_append_left

/-- A name more. -/
theorem concat_some_iff {n : String} (h : NamesApart names) :
    NamesApart (names ++ [some n]) ↔ none ∉ names ∧ some n ∉ names := by
  constructor
  · intro hn
    refine ⟨?_, ?_⟩
    · rcases hn.named with hlength | hnone
      · rw [List.length_append, List.length_singleton] at hlength
        rw [List.length_eq_zero_iff.mp (by omega : names.length = 0)]
        exact List.not_mem_nil
      · intro hmem
        exact hnone (List.mem_append_left _ hmem)
    · intro hmem
      exact (List.nodup_append.mp hn.nodup).2.2 _ hmem _ (List.mem_singleton.mpr rfl) rfl
  · rintro ⟨hnone, hn⟩
    refine ⟨.inr ?_, ?_⟩
    · simpa using hnone
    · rw [← List.concat_eq_append]
      exact List.Nodup.concat hn h.nodup

/-- An operation without a name more. -/
theorem concat_none_iff : NamesApart (names ++ [none]) ↔ names = [] := by
  constructor
  · intro h
    rcases h.named with hlength | hnone
    · rw [List.length_append, List.length_singleton] at hlength
      exact List.length_eq_zero_iff.mp (by omega)
    · exact absurd (by simp) hnone
  · rintro rfl
    exact ⟨.inl (Nat.le_refl 1), List.nodup_singleton _⟩

end NamesApart

namespace Tree

/-- The operation that a definition defines. -/
def Definition.operation? : Definition → Option Operation
  | .operation op => some op
  | .fragment _ => none

/-- The fragment that a definition defines. -/
def Definition.fragment? : Definition → Option Fragment
  | .operation _ => none
  | .fragment f => some f

namespace Document

/-- A document with further definitions. -/
def append (d : Document) (defs : List Definition) : Document :=
  ⟨d.operations ++ defs.filterMap Definition.operation?,
    d.fragments ++ defs.filterMap Definition.fragment?⟩

/-- The names of the operations tell them apart, and no two fragments share a name. -/
structure Apart (d : Document) : Prop where
  operations : NamesApart (d.operations.map Operation.name)
  fragments : (d.fragments.map Fragment.name).Nodup

variable {d d' : Document} {defs : List Definition}

theorem append_nil (d : Document) : d.append [] = d := by
  simp [append]

theorem append_cons (d : Document) (x : Definition) (defs : List Definition) :
    d.append (x :: defs) = (d.append [x]).append defs := by
  simp only [append, List.append_assoc, ← List.filterMap_append, List.singleton_append]

theorem Apart.of_append (h : (d.append defs).Apart) : d.Apart where
  operations := by
    have hnames := h.operations
    simp only [append, List.map_append] at hnames
    exact hnames.of_append
  fragments := by
    have hnames := h.fragments
    simp only [append, List.map_append] at hnames
    exact hnames.of_append_left

theorem addOperation_eq_ok_iff {op : Operation} (h : NamesApart (d.operations.map Operation.name)) :
    d.addOperation op = .ok d' ↔
      NamesApart (d.operations.map Operation.name ++ [op.name]) ∧
        d' = ⟨d.operations ++ [op], d.fragments⟩ := by
  rw [addOperation]
  cases op.name with
  | none =>
      rw [NamesApart.concat_none_iff, List.map_eq_nil_iff]
      cases hd : d.operations <;> simp [eq_comm]
  | some n =>
      have hnone : d.operations.any (·.name.isNone) = true ↔
          none ∈ d.operations.map Operation.name := by
        simp
      have hsome : d.operations.any (·.name == some n) = true ↔
          some n ∈ d.operations.map Operation.name := by
        simp
      rw [h.concat_some_iff, ite_error_eq_ok_iff, ite_error_eq_ok_iff, hnone, hsome,
        Except.ok.injEq, and_assoc, eq_comm (a := d')]

theorem addFragment_eq_ok_iff {f : Fragment} (h : (d.fragments.map Fragment.name).Nodup) :
    d.addFragment f = .ok d' ↔
      (d.fragments.map Fragment.name ++ [f.name]).Nodup ∧
        d' = ⟨d.operations, d.fragments ++ [f]⟩ := by
  have hmem : d.fragments.any (·.name == f.name) = true ↔
      f.name ∈ d.fragments.map Fragment.name := by
    simp
  have hnodup : (d.fragments.map Fragment.name ++ [f.name]).Nodup ↔
      f.name ∉ d.fragments.map Fragment.name := by
    rw [← List.concat_eq_append, List.nodup_concat]
    exact and_iff_left h
  rw [addFragment, hnodup, ite_error_eq_ok_iff, hmem, Except.ok.injEq, eq_comm (a := d')]

/-- A definition is accepted exactly if the names stay apart with it. -/
theorem add_eq_ok_iff (h : d.Apart) (x : Definition) :
    d.add x = .ok d' ↔ (d.append [x]).Apart ∧ d' = d.append [x] := by
  cases x with
  | operation op =>
      have happend : d.append [.operation op] = ⟨d.operations ++ [op], d.fragments⟩ := by
        simp [append, Definition.operation?, Definition.fragment?]
      rw [add, addOperation_eq_ok_iff h.operations, happend]
      refine and_congr_left' ⟨?_, ?_⟩
      · intro hnames
        exact ⟨by simpa using hnames, h.fragments⟩
      · intro hapart
        simpa using hapart.operations
  | fragment f =>
      have happend : d.append [.fragment f] = ⟨d.operations, d.fragments ++ [f]⟩ := by
        simp [append, Definition.operation?, Definition.fragment?]
      rw [add, addFragment_eq_ok_iff h.fragments, happend]
      refine and_congr_left' ⟨?_, ?_⟩
      · intro hnames
        exact ⟨h.operations, by simpa using hnames⟩
      · intro hapart
        simpa using hapart.fragments

/-- Definitions are accepted exactly if the names stay apart with all of them. -/
theorem foldlM_add_eq_ok_iff (h : d.Apart) :
    defs.foldlM Document.add d = .ok d' ↔ (d.append defs).Apart ∧ d' = d.append defs := by
  induction defs generalizing d with
  | nil =>
      rw [append_nil, List.foldlM_nil]
      constructor
      · intro hd
        exact ⟨h, (Except.ok.inj hd).symm⟩
      · rintro ⟨-, rfl⟩
        rfl
  | cons x defs ih =>
      rw [List.foldlM_cons, bind_eq_ok_iff, append_cons]
      constructor
      · rintro ⟨_, hx, hrest⟩
        obtain ⟨hapart, rfl⟩ := (add_eq_ok_iff h x).mp hx
        exact (ih hapart).mp hrest
      · rintro ⟨hall, rfl⟩
        have hapart : (d.append [x]).Apart := hall.of_append
        exact ⟨_, (add_eq_ok_iff h x).mpr ⟨hapart, rfl⟩, (ih hapart).mpr ⟨hall, rfl⟩⟩

/-- What definitions make a document, and which one. -/
theorem ofDefinitions_eq_ok_iff :
    ofDefinitions defs = .ok d ↔
      (d.operations = defs.filterMap Definition.operation? ∧
        d.fragments = defs.filterMap Definition.fragment?) ∧ d.Apart ∧ d.operations ≠ [] := by
  have hempty : (⟨[], []⟩ : Document).Apart := ⟨⟨.inl (Nat.zero_le 1), .nil⟩, .nil⟩
  have happend : (⟨[], []⟩ : Document).append defs =
      ⟨defs.filterMap Definition.operation?, defs.filterMap Definition.fragment?⟩ := by
    simp [append]
  rw [ofDefinitions, bind_eq_ok_iff]
  simp only [foldlM_add_eq_ok_iff hempty, happend]
  constructor
  · rintro ⟨_, ⟨hapart, rfl⟩, h⟩
    obtain ⟨hsome, h⟩ := ite_error_eq_ok_iff.mp h
    cases h
    exact ⟨⟨rfl, rfl⟩, hapart, by simpa using hsome⟩
  · obtain ⟨operations, fragments⟩ := d
    rintro ⟨⟨rfl, rfl⟩, hapart, hsome⟩
    exact ⟨_, ⟨hapart, rfl⟩, ite_error_eq_ok_iff.mpr ⟨by simpa using hsome, rfl⟩⟩

/-- A text that is a document has definitions with the names that a document needs. -/
theorem exists_of_parse {text : String} (h : parse text = .ok d) :
    ∃ defs s', Parser.document (locate text) = some (defs, s') ∧
      d.operations = defs.filterMap Definition.operation? ∧ d.Apart ∧ d.operations ≠ [] := by
  rw [parse] at h
  split at h
  · cases h
  · next defs s' hdefs =>
      split at h
      · cases h
      · obtain ⟨⟨hoperations, -⟩, hapart, hsome⟩ := ofDefinitions_eq_ok_iff.mp h
        exact ⟨defs, s', hdefs, hoperations, hapart, hsome⟩

end Document
end Tree
end MutationInput
