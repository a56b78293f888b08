import MutationInput.Proofs.Loading.Document
import MutationInput.Proofs.Provided.Gather
import MutationInput.Proofs.Tree.Mutation

/-!
# From the text of a mutation to the provided fields

A mutation is written out for a field, an argument and a list of names: it passes the field one
object in which each name has its position as its value. Its text is read, the tree is loaded and
the argument is resolved, and what comes out is the list of names, each where it came first
(`resolve_mutationSource`). So nothing on the way depends on what the names are, and none is lost.
-/
open MutationInput.Tree

namespace MutationInput

/-- The mutation that passes an object of numbered names, as a text. The names are counted from
zero, in 64 bits. -/
def mutationSource (f a : String) (names : List String) : String :=
  "mutation \x7b " ++ f ++ "(" ++ a ++ ": \x7b" ++
    ", ".intercalate (names.zipIdx.map fun e => e.1 ++ ": " ++ toString e.2.toUInt64) ++
    "\x7d) \x7b id \x7d \x7d"

/-- The names with their positions in 64 bits. -/
def positions (names : List String) : List (String × Nat) :=
  names.zipIdx.map fun e => (e.1, e.2.toUInt64.toNat)

theorem map_fst_positions (names : List String) : (positions names).map Prod.fst = names := by
  rw [positions, List.map_map]
  exact List.zipIdx_map_fst 0 names

theorem toList_mutationSource (f a : String) (names : List String) :
    (mutationSource f a names).toList = mutationText f a (positions names) := by
  have hfield : String.toList ∘ (fun e : String × Nat => e.1 ++ ": " ++ toString e.2.toUInt64) =
      fieldText ∘ fun e => (e.1, e.2.toUInt64.toNat) := by
    funext e
    have hdigits : (toString e.2.toUInt64).toList = Nat.toDigits 10 e.2.toUInt64.toNat :=
      Nat.toList_repr
    simp only [Function.comp_apply, String.toList_append, hdigits, fieldText]
    simp
  simp only [mutationSource, mutationText, fieldsText, positions, String.toList_append,
    String.toList_intercalate, List.map_map, hfield]
  simp

/-! ## The tree -/

/-- Without a number too large, an object has each name once. -/
theorem objectLiteral_eq {fields : List (String × Literal)}
    (h : ∀ e ∈ fields, e.2.overflows = false) :
    Parser.objectLiteral fields = .object (Dict.ofList fields).entries := by
  have hnone : fields.filter (fun e => e.2.overflows) = [] := by
    rw [List.filter_eq_nil_iff]
    intro e he
    simp [h e he]
  rw [Parser.objectLiteral, hnone]

theorem fieldsOverflow_eq_false {fields : List (String × Literal)}
    (h : ∀ e ∈ fields, e.2.overflows = false) : fieldsOverflow fields = false := by
  induction fields with
  | nil => rfl
  | cons e fields ih =>
      obtain ⟨he, hfields⟩ := List.forall_mem_cons.mp h
      rw [fieldsOverflow, he, ih hfields]
      rfl

theorem fault?_passing {f a : String} {x : Literal} (hx : x.overflows = false)
    (l₁ l₂ l₃ : Location) :
    (Definition.operation (.passing f a x l₁ l₂ l₃)).fault? = none := by
  simp [Tree.Operation.passing, Definition.fault?, selectionsFault?, Selection.fault?,
    nestedFault?, overflowFault, directivesOverflow, fieldsOverflow, maxNesting, hx]

/-- The text denotes a document of one mutation, which passes the names in an object. -/
theorem parse_tree_mutationSource {f a : String} {names : List String} (hf : IsName f)
    (ha : IsName a) (hnames : ∀ n ∈ names, IsName n) :
    ∃ fields l₁ l₂ l₃, fields.map Prod.fst = names.eraseDups ∧
      Tree.Document.parse (mutationSource f a names) =
        .ok ⟨[.passing f a (.object fields) l₁ l₂ l₃], []⟩ := by
  have hpositions : ∀ e ∈ positions names, IsName e.1 := by
    intro e he
    refine hnames e.1 ?_
    rw [← map_fst_positions names]
    exact List.mem_map_of_mem he
  have hfits : ∀ x ∈ (positions names).map numbered, x.2.overflows = false := by
    intro x hx
    obtain ⟨e, he, rfl⟩ := List.mem_map.mp hx
    obtain ⟨n, hn, rfl⟩ := List.mem_map.mp he
    rw [numbered, Json.toNumber_toDigits (UInt64.toNat_lt_size _)]
    rfl
  obtain ⟨defs, rest, hdocument, -, l₁, l₂, l₃, rfl⟩ :=
    Parser.takes_mutationText hf ha hpositions (locate (mutationSource f a names))
      (by rw [characters_locate, toList_mutationSource])
  refine ⟨(Dict.ofList ((positions names).map numbered)).entries, l₁, l₂, l₃, ?_, ?_⟩
  · have hkeys := Dict.keys_ofList ((positions names).map numbered)
    rw [List.map_map] at hkeys
    exact hkeys.trans (congrArg List.eraseDups (map_fst_positions names))
  · have hobject : (Literal.object
        (Dict.ofList ((positions names).map numbered)).entries).overflows = false :=
      fieldsOverflow_eq_false fun e he => hfits e (Dict.mem_of_mem_entries_ofList he)
    rw [objectLiteral_eq hfits] at hdocument
    rw [Tree.Document.parse, hdocument]
    simp only [List.findSome?_cons, fault?_passing hobject, List.findSome?_nil]
    rfl

/-! ## The operation -/

/-- The operation that selects `id` of a field `f` and passes it one argument `a`. -/
def Operation.passing (f a : String) (v : Value) (l₁ l₂ l₃ : Location) : Operation :=
  ⟨.mutation, none, l₁, [],
    [.field ⟨none, f, l₂, Dict.ofList [(a, v)]⟩ [.field ⟨none, "id", l₃, Dict.empty⟩ []]]⟩

theorem load_passing (f a : String) (x : Literal) (l₁ l₂ l₃ : Location) :
    Document.load ⟨[.passing f a x l₁ l₂ l₃], []⟩ =
      .ok ⟨[.passing f a (.ofLiteral x) l₁ l₂ l₃]⟩ := by
  have hordered : Tree.Document.ordered ⟨[.passing f a x l₁ l₂ l₃], []⟩ =
      [.passing f a x l₁ l₂ l₃] := List.mergeSort_singleton _
  rw [Document.load, hordered]
  rfl

theorem map_fst_ofNamedLiterals (fields : List (String × Literal)) :
    (Value.ofNamedLiterals fields).map Prod.fst = fields.map Prod.fst := by
  induction fields with
  | nil => rfl
  | cons e fields ih => rw [Value.ofNamedLiterals, List.map_cons, List.map_cons, ih]

/-! ## The answer -/

/-- With the argument requested, and with no request, the passed object is all that is inspected. -/
theorem result_resolve_passing {f a : String} {fields : List (String × Value)} {r : Inspection}
    (hr : r.requested = [a] ∨ r.requested = []) (l₁ l₂ l₃ : Location) (bindings : Variables) :
    (r.resolve ⟨some (.passing f a (.object fields) l₁ l₂ l₃), some f, bindings⟩).result =
      .ok (Dict.ofList [(a, (fields.map Prod.fst).eraseDups)]) := by
  let s : Field := ⟨none, f, l₂, Dict.ofList [(a, .object fields)]⟩
  have hselected : (Operation.passing f a (.object fields) l₁ l₂ l₃).selected f = [s] := if_pos rfl
  have hoccurrences : s.occurrences r.requested = [⟨s, a, .object fields⟩] := by
    rcases hr with hr | hr
    · have hpassed : s.argument? a = some (.object fields) := by
        simp [s, Field.argument?, Dict.get?_ofList]
      rw [hr, Field.occurrences_requested s (by simp)]
      simp [hpassed]
    · rw [hr, Field.occurrences_all]
      rfl
  rw [Inspection.result_resolve rfl rfl rfl, hselected, if_neg (by simp), Operation.occurrences,
    hselected, List.flatMap_singleton, hoccurrences, Inspection.gather_cons]
  simp only [Inspection.absorb, Inspection.result_inspect_object]
  rfl

/-- The text of a mutation that passes an object of numbered names loads, as one mutation without
a name, and what it provides in the argument is the names, each where it came first: with the
argument requested, and with no request. -/
theorem resolve_mutationSource {f a : String} {names : List String} (hf : IsName f)
    (ha : IsName a) (hnames : ∀ n ∈ names, IsName n) :
    ∃ doc op, Document.parse (mutationSource f a names) = .ok doc ∧ doc.operations = [op] ∧
      op.kind = .mutation ∧ op.name = none ∧ doc.operation none = .ok op ∧
      ∀ requested ∈ [[a], []], ∀ require bindings, ∃ p : ProvidedFields,
        (((Inspection.all.request requested).requiring require).resolve
          ⟨some op, some f, bindings⟩).result = .ok p ∧ p.entries = [(a, names.eraseDups)] := by
  obtain ⟨fields, l₁, l₂, l₃, hfields, htree⟩ := parse_tree_mutationSource hf ha hnames
  have hparse : Document.parse (mutationSource f a names) =
      .ok ⟨[.passing f a (.object (Value.ofNamedLiterals fields)) l₁ l₂ l₃]⟩ := by
    simp only [Document.parse, htree]
    rw [load_passing, Value.ofLiteral]
  refine ⟨_, _, hparse, rfl, rfl, rfl, rfl, ?_⟩
  intro requested hrequested require bindings
  have hr : (Inspection.all.request requested).requested = [a] ∨
      (Inspection.all.request requested).requested = [] := by
    rw [Inspection.requested_all_request]
    rcases List.mem_pair.mp hrequested with rfl | rfl
    · exact .inl rfl
    · exact .inr rfl
  have hkeys : ((Value.ofNamedLiterals fields).map Prod.fst).eraseDups = names.eraseDups := by
    rw [map_fst_ofNamedLiterals, hfields, Dict.eraseDups_of_nodup (Dict.nodup_eraseDups names)]
  refine ⟨_, result_resolve_passing (r := (Inspection.all.request requested).requiring require) hr
    l₁ l₂ l₃ bindings, ?_⟩
  rw [hkeys]
  rfl

/-- Words of the grammar are names like all others, and one that comes again keeps its place. -/
theorem resolve_mutationSource_words :
    mutationSource "mutation" "on" ["true", "b_2", "query", "true"] =
      "mutation \x7b mutation(on: \x7btrue: 0, b_2: 1, query: 2, true: 3\x7d) \x7b id \x7d \x7d" ∧
    ∃ doc op, Document.parse (mutationSource "mutation" "on" ["true", "b_2", "query", "true"]) =
        .ok doc ∧
      doc.operation none = .ok op ∧
      ∀ requested ∈ [["on"], []], ∀ require bindings, ∃ p : ProvidedFields,
        (((Inspection.all.request requested).requiring require).resolve
          ⟨some op, some "mutation", bindings⟩).result = .ok p ∧
        p.entries = [("on", ["true", "b_2", "query"])] := by
  refine ⟨by decide +kernel, ?_⟩
  obtain ⟨doc, op, hparse, -, -, -, hop, hresolve⟩ :=
    resolve_mutationSource (f := "mutation") (a := "on")
      (by decide +kernel) (by decide +kernel)
      (by decide +kernel : ∀ n ∈ ["true", "b_2", "query", "true"], IsName n)
  exact ⟨doc, op, hparse, hop, hresolve⟩

end MutationInput
