import MutationInput.Proofs.Loading.Document
import MutationInput.Proofs.Tree.Places
import Mathlib.Data.List.Perm.Basic

/-!
# Looking operations up

The names of a text's operations tell them apart, so that a look-up never hides an operation behind
another one: `parse_orderly`. Loading sorts operations by location, so it does not matter in which
order a parser hands them over (`orderly_of_load`). Their order is that of the text where every
carriage return is followed by a line feed. Behind a carriage return on its own an operation may
have a smaller location than one in front of it, and then it comes first.
-/
namespace MutationInput

/-! ## Look-ups -/

namespace Document

variable {doc : Document}

theorem operation_none_eq_ok_iff {op : Operation} :
    doc.operation none = .ok op ↔ doc.operations = [op] := by
  rw [operation]
  split
  · next h => simp [h]
  · next h => simp [h]
  · next hnil hone =>
      constructor
      · intro h
        cases h
      · intro h
        exact absurd h (hone op)

/-- Without a name the look-up fails if there are several operations, and tells how many. -/
theorem operation_none_eq_error_iff (hsome : doc.operations ≠ []) {e : LookupError} :
    doc.operation none = .error e ↔
      1 < doc.operations.length ∧ e = .ambiguous doc.operations.length := by
  rw [operation]
  split
  · next h => exact absurd h hsome
  · next h => simp [h]
  · next hnil hone =>
      have hlength : 1 < doc.operations.length := by
        rcases hops : doc.operations with _ | ⟨op, _ | ⟨_, rest⟩⟩
        · exact absurd hops hnil
        · exact absurd hops (hone op)
        · simp
      rw [Except.error.injEq, eq_comm]
      exact (and_iff_right hlength).symm

theorem operation_some_eq_error_iff {n : String} {e : LookupError} :
    doc.operation (some n) = .error e ↔
      (∀ op ∈ doc.operations, op.name ≠ some n) ∧ e = .notFound n := by
  rw [operation]
  split
  · next op h =>
      constructor
      · intro h'
        cases h'
      · rintro ⟨hnone, -⟩
        exact absurd (by simpa using List.find?_some h) (hnone op (List.mem_of_find?_eq_some h))
  · next h =>
      have hnone : ∀ op ∈ doc.operations, op.name ≠ some n := by
        simpa using List.find?_eq_none.mp h
      rw [Except.error.injEq, eq_comm]
      exact (and_iff_right hnone).symm

/-- With a name the look-up finds the operation of that name, wherever it stands. -/
theorem operation_some_eq_ok_iff (hnodup : (doc.operations.map Operation.name).Nodup)
    {n : String} {op : Operation} :
    doc.operation (some n) = .ok op ↔ op ∈ doc.operations ∧ op.name = some n := by
  have hfound : ∀ op', doc.operation (some n) = .ok op' →
      op' ∈ doc.operations ∧ op'.name = some n := by
    intro op' h
    rw [operation] at h
    split at h
    · next h' =>
        cases h
        exact ⟨List.mem_of_find?_eq_some h', by simpa using List.find?_some h'⟩
    · cases h
  refine ⟨hfound op, ?_⟩
  rintro ⟨hop, hname⟩
  cases h : doc.operation (some n) with
  | error e => exact absurd hname ((operation_some_eq_error_iff.mp h).1 op hop)
  | ok op' =>
      obtain ⟨hop', hname'⟩ := hfound op' h
      rw [List.inj_on_of_nodup_map hnodup hop' hop (hname'.trans hname.symm)]

/-- Every operation is the result of a look-up. -/
theorem exists_operation_eq_ok (hapart : NamesApart (doc.operations.map Operation.name))
    {op : Operation} (hop : op ∈ doc.operations) : ∃ name?, doc.operation name? = .ok op := by
  cases hname : op.name with
  | some n => exact ⟨some n, (operation_some_eq_ok_iff hapart.nodup).mpr ⟨hop, hname⟩⟩
  | none =>
      refine ⟨none, operation_none_eq_ok_iff.mpr ?_⟩
      rcases hapart.named with hlength | hnamed
      · rw [List.length_map] at hlength
        obtain ⟨op', hone⟩ := List.length_eq_one_iff.mp
          (Nat.le_antisymm hlength (List.length_pos_of_mem hop))
        rw [hone] at hop
        rw [hone, List.mem_singleton.mp hop]
      · exact absurd (hname ▸ List.mem_map_of_mem hop) hnamed

end Document

/-! ## The order of operations -/

/-- Operations that are sorted by location are in the order in which the locations increase, if
there is one. -/
theorem Operation.eq_of_perm_of_precedes {ops source : List Operation}
    (hsorted : (ops.map Operation.location).Pairwise fun a b => a.le b = true)
    (hsource : (source.map Operation.location).Pairwise Location.Precedes)
    (hperm : source.Perm ops) : ops = source := by
  have hnodup : (source.map Operation.location).Nodup := hsource.imp Location.Precedes.ne
  have hle : source.Pairwise fun a b => a.location.le b.location = true :=
    (List.pairwise_map.mp hsource).imp Location.Precedes.le
  refine List.Perm.eq_of_pairwise ?_ (List.pairwise_map.mp hsorted) hle hperm.symm
  intro a b ha hb hab hba
  exact List.inj_on_of_nodup_map hnodup (hperm.mem_iff.mpr ha) hb (Location.le_antisymm hab hba)

/-! ## Documents -/

/-- What holds of the operations that are loaded from a text. -/
structure Document.Orderly (text : String) (doc : Document) : Prop where
  nonempty : doc.operations ≠ []
  /-- There is one operation, or all have names and no two the same. -/
  apart : NamesApart (doc.operations.map Operation.name)
  sorted : (doc.operations.map Operation.location).Pairwise fun a b => a.le b = true
  /-- They are the operations of the text, each standing where it says. -/
  source : ∃ source : List Operation, source.Perm doc.operations ∧
    Stand (locate text) (source.map Operation.location)
  /-- Their order is that of the text, and no two have the same location. -/
  inOrder : ReturnsFeed text.toList →
    Stand (locate text) (doc.operations.map Operation.location) ∧
      (doc.operations.map Operation.location).Pairwise Location.Precedes
  /-- Without a name the look-up finds an operation that stands alone. -/
  alone : ∀ op, doc.operation none = .ok op ↔ doc.operations = [op]
  /-- Otherwise it tells how many there are. -/
  ambiguous : ∀ e, doc.operation none = .error e ↔
    1 < doc.operations.length ∧ e = .ambiguous doc.operations.length
  /-- With a name the look-up finds the operation that has it. -/
  named : ∀ n op, doc.operation (some n) = .ok op ↔ op ∈ doc.operations ∧ op.name = some n
  missing : ∀ n e, doc.operation (some n) = .error e ↔
    (∀ op ∈ doc.operations, op.name ≠ some n) ∧ e = .notFound n
  /-- No operation is out of reach. -/
  reached : ∀ op ∈ doc.operations, ∃ name?, doc.operation name? = .ok op

namespace Document

variable {text : String} {d : Tree.Document} {doc : Document}

/-- Loaded operations have the names and the locations of their definitions. -/
theorem map_eq_of_forall₂ {definitions : List Tree.Operation} {ops : List Operation}
    (h : List.Forall₂ (fun definition op => Operation.load definition = .ok op) definitions ops) :
    ops.map Operation.name = definitions.map Tree.Operation.name ∧
      ops.map Operation.location = definitions.map Tree.Operation.location := by
  induction h with
  | nil => exact ⟨rfl, rfl⟩
  | cons hop _ ih =>
      have hmirrors := (Operation.mirrors_of_load hop).2
      simp only [List.map_cons, hmirrors.name, hmirrors.location, ih.1, ih.2, and_self]

/-- A document loaded from the operations of a text, whatever their order, is in the order of the
text and its look-ups tell its operations apart. -/
theorem orderly_of_load {definitions : List Tree.Operation}
    (hparse : Tree.Document.parse text = .ok d) (hdefinitions : definitions.Perm d.operations)
    (h : load { d with operations := definitions } = .ok doc) : doc.Orderly text := by
  obtain ⟨_, _, -, -, htree, hsome⟩ := Tree.Document.exists_of_parse hparse
  have hperm : d.operations.Perm ({ d with operations := definitions } : Tree.Document).ordered :=
    ((List.mergeSort_perm _ _).trans hdefinitions).symm
  have hloaded := load_eq_ok_iff.mp h
  obtain ⟨hnames, hlocations⟩ := map_eq_of_forall₂ hloaded
  have hnonempty : doc.operations ≠ [] := by
    intro hnil
    rw [hnil, List.forall₂_nil_right_iff] at hloaded
    rw [hloaded] at hperm
    exact hsome hperm.eq_nil
  have hapart : NamesApart (doc.operations.map Operation.name) := by
    rw [hnames]
    exact htree.operations.perm (hperm.map _)
  have hsorted : (doc.operations.map Operation.location).Pairwise fun a b => a.le b = true := by
    rw [hlocations]
    exact List.pairwise_map.mpr (pairwise_ordered _)
  -- The loaded operations once more, in the order of the text: each comes from the definition in
  -- its place, so they have the locations at which the parser found the definitions.
  obtain ⟨source, hsource, hsourcePerm⟩ := List.perm_comp_forall₂ hperm hloaded
  have hstand : Stand (locate text) (source.map Operation.location) := by
    rw [(map_eq_of_forall₂ hsource).2]
    exact Tree.Document.stand_parse hparse
  exact {
    nonempty := hnonempty
    apart := hapart
    sorted := hsorted
    source := ⟨source, hsourcePerm, hstand⟩
    inOrder := by
      intro hfeed
      have hincreasing := hstand.pairwise_precedes hfeed
      rw [Operation.eq_of_perm_of_precedes hsorted hincreasing hsourcePerm]
      exact ⟨hstand, hincreasing⟩
    alone := fun _ => operation_none_eq_ok_iff
    ambiguous := fun _ => operation_none_eq_error_iff hnonempty
    named := fun _ _ => operation_some_eq_ok_iff hapart.nodup
    missing := fun _ _ => operation_some_eq_error_iff
    reached := fun _ => exists_operation_eq_ok hapart }

/-- The operations of every text that is a document are told apart by look-ups, and are in the order
of the text unless a carriage return stands on its own. -/
theorem parse_orderly (h : parse text = .ok doc) : doc.Orderly text := by
  rw [parse] at h
  split at h
  · cases h
  · next d hparse => exact orderly_of_load hparse (List.Perm.refl _) h

/-- A text is loaded from its definitions, each in its place. -/
theorem parse_eq_ok {definitions : List Tree.Operation} {ops : List Operation}
    (hparse : Tree.Document.parse text = .ok d) (hordered : d.ordered = definitions)
    (hloaded : List.Forall₂ (fun definition op => Operation.load definition = .ok op)
      definitions ops) : parse text = .ok ⟨ops⟩ := by
  rw [parse, hparse]
  exact load_eq_ok_iff.mpr (hordered ▸ hloaded)

/-- A definition that can be loaded gives an operation with its name and location. -/
theorem exists_load_of_toBool {definition : Tree.Operation} {a : Option String × Location}
    (h : ((definition.name, definition.location), (Operation.load definition).toBool) = (a, true)) :
    ∃ op, Operation.load definition = .ok op ∧ (op.name, op.location) = a ∧
      definition.location = a.2 := by
  obtain ⟨rfl, hload⟩ := Prod.mk.inj h
  obtain ⟨op, hop⟩ := toBool_eq_true_iff.mp hload
  have hmirrors := (Operation.mirrors_of_load hop).2
  exact ⟨op, hop, by rw [hmirrors.name, hmirrors.location], rfl⟩

/-- Two operations of a text that can be loaded are ordered by their locations. -/
theorem exists_parse_pair {a b : Option String × Location}
    (h : ((Tree.Document.parse text).toOption.map fun d => d.operations.map fun definition =>
      ((definition.name, definition.location), (Operation.load definition).toBool)) =
        some [(a, true), (b, true)]) :
    ∃ doc, parse text = .ok doc ∧
      doc.operations.map (fun op => (op.name, op.location)) =
        if a.2.le b.2 then [a, b] else [b, a] := by
  obtain ⟨⟨operations, fragments⟩, hd, hdefinitions⟩ := Option.map_eq_some_iff.mp h
  have hparse := toOption_eq_some_iff.mp hd
  obtain ⟨x, rest, rfl, hx, hrest⟩ := List.map_eq_cons_iff.mp hdefinitions
  obtain ⟨y, rfl, hy⟩ := List.map_eq_singleton_iff.mp hrest
  obtain ⟨x', hloadX, hnamedX, hxa⟩ := exists_load_of_toBool hx
  obtain ⟨y', hloadY, hnamedY, hyb⟩ := exists_load_of_toBool hy
  have hordered := ordered_pair x y fragments
  rw [hxa, hyb] at hordered
  by_cases hle : a.2.le b.2
  · rw [if_pos hle] at hordered ⊢
    have hloaded := parse_eq_ok hparse hordered (.cons hloadX (.cons hloadY .nil))
    exact ⟨_, hloaded, by simp [hnamedX, hnamedY]⟩
  · rw [if_neg hle] at hordered ⊢
    have hloaded := parse_eq_ok hparse hordered (.cons hloadY (.cons hloadX .nil))
    exact ⟨_, hloaded, by simp [hnamedX, hnamedY]⟩

end Document

/-- Two queries on two lines, which a carriage return and a line feed separate. -/
theorem parse_orderly_twoLines :
    ∃ doc, Document.parse " query A{a}\r\nquery B{b}" = .ok doc ∧
      doc.Orderly " query A{a}\r\nquery B{b}" ∧
      (doc.operations.map Operation.location).Pairwise Location.Precedes ∧
      ∃ op, doc.operation (some "B") = .ok op ∧ op.location = ⟨2, 1⟩ := by
  obtain ⟨doc, hparse, hpair⟩ : ∃ doc, Document.parse " query A{a}\r\nquery B{b}" = .ok doc ∧
      doc.operations.map (fun op => (op.name, op.location)) =
        [(some "A", ⟨1, 2⟩), (some "B", ⟨2, 1⟩)] :=
    Document.exists_parse_pair (a := (some "A", ⟨1, 2⟩)) (b := (some "B", ⟨2, 1⟩))
      (by decide +kernel)
  have horderly := Document.parse_orderly hparse
  have hmem : (some "B", ⟨2, 1⟩) ∈ doc.operations.map fun op => (op.name, op.location) := by
    simp [hpair]
  obtain ⟨op, hop, heq⟩ := List.mem_map.mp hmem
  obtain ⟨hname, hlocation⟩ := Prod.mk.inj heq
  exact ⟨doc, hparse, horderly, (horderly.inOrder (by decide)).2, op,
    (horderly.named _ _).mpr ⟨hop, hname⟩, hlocation⟩

/-- Without the line feed the second query stands on the line of the first, and in front of it: it
comes first, though the text has it last. With no blank in front both have the same location. -/
theorem not_stand_loneReturn :
    (∃ doc, Document.parse " query A{a}\rquery B{b}" = .ok doc ∧
      doc.operations.map Operation.name = [some "B", some "A"] ∧
      ¬Stand (locate " query A{a}\rquery B{b}") (doc.operations.map Operation.location)) ∧
    ∃ doc, Document.parse "query A{a}\rquery B{b}" = .ok doc ∧
      doc.operations.map Operation.location = [⟨1, 1⟩, ⟨1, 1⟩] := by
  constructor
  · obtain ⟨doc, hparse, hpair⟩ : ∃ doc, Document.parse " query A{a}\rquery B{b}" = .ok doc ∧
        doc.operations.map (fun op => (op.name, op.location)) =
          [(some "B", ⟨1, 1⟩), (some "A", ⟨1, 2⟩)] :=
      Document.exists_parse_pair (a := (some "A", ⟨1, 2⟩)) (b := (some "B", ⟨1, 1⟩))
        (by decide +kernel)
    have hnames := congrArg (List.map Prod.fst) hpair
    have hlocations := congrArg (List.map Prod.snd) hpair
    simp only [List.map_map, Function.comp_def] at hnames hlocations
    refine ⟨doc, hparse, hnames, ?_⟩
    rw [hlocations]
    decide
  · obtain ⟨doc, hparse, hpair⟩ : ∃ doc, Document.parse "query A{a}\rquery B{b}" = .ok doc ∧
        doc.operations.map (fun op => (op.name, op.location)) =
          [(some "A", ⟨1, 1⟩), (some "B", ⟨1, 1⟩)] :=
      Document.exists_parse_pair (a := (some "A", ⟨1, 1⟩)) (b := (some "B", ⟨1, 1⟩))
        (by decide +kernel)
    have hlocations := congrArg (List.map Prod.snd) hpair
    simp only [List.map_map, Function.comp_def] at hlocations
    exact ⟨doc, hparse, hlocations⟩

end MutationInput
