import MutationInput.Proofs.Correspondence
import MutationInput.Proofs.Insertions
import MutationInput.Proofs.Provided.Noninterference

/-!
# Variables that are equal

Variables hold what was inserted into them, and are equal if look-ups agree on every name, however
they came about. A resolution does not tell equal variables apart, though it goes through a mapping
that has no order of its own: `variables_reflect_insertions`.
-/
namespace MutationInput

/-! ## Equal bindings -/

theorem Scalar.kind_eq_of_same {a b : Scalar} (h : a.same b = true) : a.kind = b.kind := by
  cases a <;> cases b <;> simp [same] at h <;> rfl

/-- Equal bindings are of one kind. -/
theorem Binding.kind_eq_of_same {a b : Binding} (h : a.same b = true) : a.kind = b.kind := by
  cases a <;> cases b <;> simp only [same, Bool.false_eq_true] at h
  · exact Scalar.kind_eq_of_same h
  · rfl
  · rfl

/-- What is equal to a binding that is no mapping is no mapping. -/
theorem Binding.not_mapping_of_same {a b : Binding} (h : a.same b = true)
    (ha : ∀ entries, a ≠ .mapping entries) (entries : List (String × Binding)) :
    b ≠ .mapping entries := by
  rintro rfl
  cases a with
  | mapping entries => exact ha entries rfl
  | _ => simp [same] at h

namespace Variables

variable {v w : Variables}

/-- Equal variables agree in all that a resolution looks at. -/
theorem agree_of_same (hv : v.WellFormed) (hw : w.WellFormed) (h : v.same w = true)
    (name : String) : Agree v w name := by
  have hrel := Dict.same_iff_forall_get?.mp h name
  generalize hx : v.get? name = x, hy : w.get? name = y at hrel
  cases hrel with
  | none => exact .absent hx hy
  | @some x y hsame =>
      have hxwf := hv (name, x) ((Dict.get?_eq_some_iff v name x).mp hx)
      have hywf := hw (name, y) ((Dict.get?_eq_some_iff w name y).mp hy)
      by_cases hmapping : ∃ entries, x = .mapping entries
      · obtain ⟨entries, rfl⟩ := hmapping
        cases y with
        | mapping entries' =>
            obtain - | - | ⟨hdistinct, -⟩ := hxwf
            obtain - | - | ⟨hdistinct', -⟩ := hywf
            exact .mappings hx hy ((Binding.same_mapping_iff hdistinct hdistinct').mp hsame).1
        | _ => simp [Binding.same] at hsame
      · have hplain : ∀ entries, x ≠ .mapping entries := not_exists.mp hmapping
        exact .plain hx hy hplain (Binding.not_mapping_of_same hsame hplain)
          (Binding.kind_eq_of_same hsame)

/-- Insertions of well-formed bindings leave variables well-formed. -/
theorem WellFormed.insertAll (hv : v.WellFormed) {pairs : List (String × Binding)}
    (hpairs : ∀ e ∈ pairs, e.2.WellFormed) : WellFormed (v.insertAll pairs).2 := by
  rintro ⟨k, b⟩ he
  have hlatest := Dict.get?_insertAll_iff.mp ((Dict.get?_eq_some_iff _ k b).mpr he)
  generalize ho : some b = o at hlatest
  cases hlatest with
  | inserted last => exact Option.some.inj ho ▸ hpairs _ last.mem
  | kept _ => exact hv (k, b) ((Dict.get?_eq_some_iff v k b).mp ho.symm)

end Variables

/-! ## Equal resolutions -/

namespace Inspection

variable {r : Inspection} {v w : Variables}

theorem inspect_eq_of_agree (h : ∀ name, Variables.Agree v w name) (argument : String)
    (x : Value) : r.inspect v argument x = r.inspect w argument x := by
  cases x with
  | «variable» name => exact inspect_agree (h name) argument
  | _ => rfl

/-- A run depends on the bindings only through its inspections. -/
theorem run_congr (h : ∀ argument x, r.inspect v argument x = r.inspect w argument x)
    (fieldName : String) (steps : List Step) (p : ProvidedFields) :
    r.run v fieldName steps p = r.run w fieldName steps p := by
  induction steps generalizing p with
  | nil => rfl
  | cons step rest ih =>
      cases step with
      | visit f => rw [run, run, ih]
      | absent name => rw [run, run, ih]
      | argument name x => simp only [run, h name x, ih]

theorem resolve_eq_of_agree (h : ∀ name, Variables.Agree v w name) (op : Option Operation)
    (fieldName : Option String) : r.resolve ⟨op, fieldName, v⟩ = r.resolve ⟨op, fieldName, w⟩ := by
  simp only [resolve, run_congr (inspect_eq_of_agree h)]

end Inspection

/-- Variables after insertions, the pairs of a list among them, hold for each name the latest value
in the place of the first. They are equal if look-ups find equal bindings under every name, and
then every resolution is the same with the one as with the other. -/
theorem variables_reflect_insertions :
    (∀ (start : Variables) (pairs : List (String × Binding)),
      Dict.History start pairs (start.insertAll pairs).1 (start.insertAll pairs).2) ∧
    (∀ pairs : List (String × Binding), Dict.ofList pairs = (Dict.empty.insertAll pairs).2) ∧
    (∀ v w : Variables, v.same w = true ↔
      ∀ name, Option.Rel (fun a b => a.same b = true) (v.get? name) (w.get? name)) ∧
    (∀ (start : Variables) (pairs : List (String × Binding)), start.WellFormed →
      (∀ e ∈ pairs, e.2.WellFormed) → Variables.WellFormed (start.insertAll pairs).2) ∧
    ∀ v w : Variables, v.WellFormed → w.WellFormed → v.same w = true →
      ∀ (r : Inspection) (op : Option Operation) (fieldName : Option String),
        r.resolve ⟨op, fieldName, v⟩ = r.resolve ⟨op, fieldName, w⟩ := by
  refine ⟨Dict.history_insertAll, ?_, fun v w => Dict.same_iff_forall_get?, ?_, ?_⟩
  · intro pairs
    rw [Dict.insertAll_snd, Dict.ofList]
  · intro start pairs hstart hpairs
    exact hstart.insertAll hpairs
  · intro v w hv hw hsame r op fieldName
    exact Inspection.resolve_eq_of_agree (Variables.agree_of_same hv hw hsame) op fieldName

/-- Pairs that bind two names, one of them twice. -/
def Variables.pairs : List (String × Binding) :=
  [("x", .list []),
    ("patch", .mapping [("a", .mapping [("p", .scalar .null), ("q", .list [])]), ("b", .list [])]),
    ("x", .scalar .null)]

/-- Pairs that bind the same names in another order, to a mapping that is listed in another order
too. -/
def Variables.pairsReordered : List (String × Binding) :=
  [("patch", .mapping [("b", .list []), ("a", .mapping [("q", .list []), ("p", .scalar .null)])]),
    ("x", .scalar .null)]

/-- The names stand in two orders, and the variables are equal and resolved alike. -/
theorem variables_reflect_insertions_pairs :
    Dict.History Dict.empty Variables.pairs [none, none, some (.list [])]
        (Dict.empty.insertAll Variables.pairs).2 ∧
      (Dict.empty.insertAll Variables.pairs).2.keys = ["x", "patch"] ∧
      (Dict.empty.insertAll Variables.pairsReordered).2.keys = ["patch", "x"] ∧
      Inspection.all.resolve
          ⟨some Operation.savesTwice, some "save", (Dict.empty.insertAll Variables.pairs).2⟩ =
        Inspection.all.resolve
          ⟨some Operation.savesTwice, some "save",
            (Dict.empty.insertAll Variables.pairsReordered).2⟩ := by
  obtain ⟨hhistory, -, -, hwellFormed, hresolve⟩ := variables_reflect_insertions
  have hnull : Binding.WellFormed (.scalar .null) := .scalar _
  have hlist : Binding.WellFormed (.list []) := .list (by simp)
  have hempty : Variables.WellFormed Dict.empty := by
    intro e he
    cases he
  have hpairs : ∀ e ∈ Variables.pairs, e.2.WellFormed := by
    have hinner : Binding.WellFormed (.mapping [("p", .scalar .null), ("q", .list [])]) :=
      .mapping (by decide) (by simp [hnull, hlist])
    simpa [Variables.pairs, hnull, hlist] using .mapping (by decide) (by simp [hinner, hlist])
  have hreordered : ∀ e ∈ Variables.pairsReordered, e.2.WellFormed := by
    have hinner : Binding.WellFormed (.mapping [("q", .list []), ("p", .scalar .null)]) :=
      .mapping (by decide) (by simp [hnull, hlist])
    simpa [Variables.pairsReordered, hnull] using .mapping (by decide) (by simp [hinner, hlist])
  have hsame : Variables.same (Dict.empty.insertAll Variables.pairs).2
      (Dict.empty.insertAll Variables.pairsReordered).2 = true := rfl
  exact ⟨hhistory _ _, rfl, rfl, hresolve _ _ (hwellFormed _ _ hempty hpairs)
    (hwellFormed _ _ hempty hreordered) hsame _ _ _⟩

end MutationInput
