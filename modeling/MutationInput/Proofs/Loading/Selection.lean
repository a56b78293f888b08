import MutationInput.Operation.Load
import MutationInput.Proofs.Dict
import MutationInput.Proofs.Steps

/-!
# Loading selections

A loaded selection mirrors its tree at every depth (`Selection.Mirrors`). Loading gives nothing
else, and it succeeds exactly if every field that is selected at some depth (`Tree.Selects`) passes
each argument once: `mirrors_of_load`, `exists_loadSelections` and `nodup_of_loadSelections`.
-/
namespace MutationInput

/-! ## Trees of selections -/

namespace Tree

/-- Induction on a selection, with the hypothesis for every selection nested in it. -/
@[elab_as_elim]
theorem Selection.induct {motive : Selection → Prop}
    (field : ∀ head nested, (∀ s ∈ nested, motive s) → motive (.field head nested))
    (spread : ∀ fragment location directives, motive (.spread fragment location directives))
    (inline : ∀ condition location directives nested, (∀ s ∈ nested, motive s) →
      motive (.inline condition location directives nested)) :
    ∀ s, motive s
  | .field head nested => field head nested fun s _ => induct field spread inline s
  | .spread fragment location directives => spread fragment location directives
  | .inline condition location directives nested =>
    inline condition location directives nested fun s _ => induct field spread inline s

/-- A field is selected in a set of selections, at some depth below fields and inline fragments.
What a spread stands for does not count. -/
inductive Selects : List Selection → Field → Prop where
  | here {set nested : List Selection} {head : Field} (selected : .field head nested ∈ set) :
      Selects set head
  | below_field {set nested : List Selection} {head f : Field}
      (selected : .field head nested ∈ set) (below : Selects nested f) : Selects set f
  | below_inline {set nested : List Selection} {condition : Option String} {location : Location}
      {directives : List Directive} {f : Field}
      (selected : .inline condition location directives nested ∈ set)
      (below : Selects nested f) : Selects set f

/-- What one of the selections selects is selected. -/
theorem Selects.of_mem {set : List Selection} {s : Selection} {f : Field} (h : Selects [s] f)
    (hs : s ∈ set) : Selects set f := by
  cases h with
  | here selected => exact .here (List.mem_singleton.mp selected ▸ hs)
  | below_field selected below => exact .below_field (List.mem_singleton.mp selected ▸ hs) below
  | below_inline selected below => exact .below_inline (List.mem_singleton.mp selected ▸ hs) below

end Tree

/-! ## What loading keeps -/

/-- A loaded field has the names, the location and the arguments of its tree, as written. -/
structure Field.Mirrors (f : Tree.Field) (g : Field) : Prop where
  aliasName : g.aliasName = f.aliasName
  name : g.name = f.name
  location : g.location = f.location
  arguments : g.arguments.entries = f.arguments.map fun a => (a.1, Value.ofLiteral a.2)

/-- A loaded selection is of the same sort as its tree, holds the same, and has nested selections
that mirror those of the tree one by one. -/
inductive Selection.Mirrors : Tree.Selection → Selection → Prop where
  | field {head : Tree.Field} {f : Field} {nested : List Tree.Selection} {loaded : List Selection}
      (head_mirrors : Field.Mirrors head f) (below : List.Forall₂ Mirrors nested loaded) :
      Mirrors (.field head nested) (.field f loaded)
  | spread (fragment : String) (location : Location) (directives : List Tree.Directive) :
      Mirrors (.spread fragment location directives) (.spread fragment location)
  | inline (condition : Option String) (location : Location) (directives : List Tree.Directive)
      {nested : List Tree.Selection} {loaded : List Selection}
      (below : List.Forall₂ Mirrors nested loaded) :
      Mirrors (.inline condition location directives nested) (.inline condition location loaded)

/-! ## Fields -/

namespace Field

theorem addArgument_eq_ok_iff {g g' : Field} {name : String} {v : Value} :
    g.addArgument name v = .ok g' ↔
      name ∉ g.arguments.keys ∧ g' = { g with arguments := g.arguments.insert name v } := by
  by_cases h : name ∈ g.arguments.keys
  · simp [addArgument, (Dict.contains_iff _ _).mpr h, h]
  · have hc : g.arguments.contains name = false := by
      simpa [Bool.eq_false_iff, Dict.contains_iff] using h
    simp [addArgument, hc, h, eq_comm]

/-- Adding arguments in order succeeds if no name is there or comes twice, and appends them. -/
theorem addArguments_eq_ok_iff {arguments : List (String × Tree.Literal)} {g g' : Field} :
    arguments.foldlM (fun g a => g.addArgument a.1 (Value.ofLiteral a.2)) g = .ok g' ↔
      (g.arguments.keys ++ arguments.map Prod.fst).Nodup ∧
        g' = { g with arguments := g'.arguments } ∧
        g'.arguments.entries =
          g.arguments.entries ++ arguments.map fun a => (a.1, Value.ofLiteral a.2) := by
  -- The names that `g` has already take part in the condition, so `g` is arbitrary.
  induction arguments generalizing g with
  | nil =>
      simp only [List.map_nil, List.append_nil]
      constructor
      · intro h
        cases h
        exact ⟨Dict.nodup_keys _, rfl, rfl⟩
      · rintro ⟨-, hg, he⟩
        rw [hg, Dict.eq_of_entries_eq he]
        rfl
  | cons a rest ih =>
      rw [List.foldlM_cons, bind_eq_ok_iff]
      simp only [addArgument_eq_ok_iff, ih]
      constructor
      · rintro ⟨_, ⟨hnew, rfl⟩, hnodup, hg, he⟩
        rw [Dict.keys_insert_of_notMem hnew] at hnodup
        rw [Dict.entries_insert_of_notMem hnew] at he
        exact ⟨by simpa using hnodup, hg, by simpa using he⟩
      · rintro ⟨hnodup, hg, he⟩
        have hnew : a.1 ∉ g.arguments.keys := by
          intro hmem
          exact (List.nodup_append.mp hnodup).2.2 a.1 hmem a.1 (by simp) rfl
        refine ⟨_, ⟨hnew, rfl⟩, ?_, hg, ?_⟩
        · rw [Dict.keys_insert_of_notMem hnew]
          simpa using hnodup
        · rw [Dict.entries_insert_of_notMem hnew]
          simpa using he

/-- A field loads if no argument name comes twice, and the loaded field mirrors it. -/
theorem load_eq_ok_iff {f : Tree.Field} {g : Field} :
    Field.load f = .ok g ↔ (f.arguments.map Prod.fst).Nodup ∧ Field.Mirrors f g := by
  rw [Field.load, addArguments_eq_ok_iff]
  constructor
  · rintro ⟨hnodup, hg, he⟩
    exact ⟨hnodup, congrArg Field.aliasName hg, congrArg Field.name hg, congrArg Field.location hg,
      he⟩
  · rintro ⟨hnodup, hg⟩
    refine ⟨hnodup, ?_, hg.arguments⟩
    rw [← hg.aliasName, ← hg.name, ← hg.location]

theorem exists_load {f : Tree.Field} (h : (f.arguments.map Prod.fst).Nodup) :
    ∃ g, Field.load f = .ok g := by
  let arguments : Dict Value :=
    ⟨f.arguments.map fun a => (a.1, Value.ofLiteral a.2), by
      simpa [List.map_map, Function.comp_def] using h⟩
  exact ⟨⟨f.aliasName, f.name, f.location, arguments⟩, load_eq_ok_iff.mpr ⟨h, rfl, rfl, rfl, rfl⟩⟩

end Field

/-! ## Selections -/

theorem loadSelections_eq_mapM (ss : List Tree.Selection) :
    loadSelections ss = ss.mapM Selection.load := by
  induction ss with
  | nil => rfl
  | cons s ss ih =>
      rw [loadSelections, List.mapM_cons, ih]

namespace Selection

theorem load_field_eq_ok_iff {head : Tree.Field} {nested : List Tree.Selection} {x : Selection} :
    Selection.load (.field head nested) = .ok x ↔
      ∃ f loaded, Field.load head = .ok f ∧ loadSelections nested = .ok loaded ∧
        x = .field f loaded := by
  simp only [Selection.load, bind_eq_ok_iff]
  constructor
  · rintro ⟨f, hf, loaded, hl, h⟩
    exact ⟨f, loaded, hf, hl, (Except.ok.inj h).symm⟩
  · rintro ⟨f, loaded, hf, hl, rfl⟩
    exact ⟨f, hf, loaded, hl, rfl⟩

theorem load_inline_eq_ok_iff {condition : Option String} {location : Location}
    {directives : List Tree.Directive} {nested : List Tree.Selection} {x : Selection} :
    Selection.load (.inline condition location directives nested) = .ok x ↔
      ∃ loaded, loadSelections nested = .ok loaded ∧ x = .inline condition location loaded := by
  simp only [Selection.load, bind_eq_ok_iff]
  constructor
  · rintro ⟨loaded, hl, h⟩
    exact ⟨loaded, hl, (Except.ok.inj h).symm⟩
  · rintro ⟨loaded, hl, rfl⟩
    exact ⟨loaded, hl, rfl⟩

/-- What is loaded mirrors its tree. -/
theorem mirrors_of_load {s : Tree.Selection} {x : Selection} (h : Selection.load s = .ok x) :
    Selection.Mirrors s x := by
  induction s using Tree.Selection.induct generalizing x with
  | field head nested ih =>
      obtain ⟨f, loaded, hf, hl, rfl⟩ := load_field_eq_ok_iff.mp h
      rw [loadSelections_eq_mapM, mapM_eq_ok_iff] at hl
      -- `ih` is about the members of `nested` and `hl` about its positions.
      have hboth := (List.forall₂_and_left _ _).mpr ⟨ih, hl⟩
      exact .field (Field.load_eq_ok_iff.mp hf).2 (hboth.imp fun _ _ h => h.1 h.2)
  | spread fragment location directives =>
      cases h
      exact .spread fragment location directives
  | inline condition location directives nested ih =>
      obtain ⟨loaded, hl, rfl⟩ := load_inline_eq_ok_iff.mp h
      rw [loadSelections_eq_mapM, mapM_eq_ok_iff] at hl
      have hboth := (List.forall₂_and_left _ _).mpr ⟨ih, hl⟩
      exact .inline condition location directives (hboth.imp fun _ _ h => h.1 h.2)

/-- A selection loads if every field that it selects passes each argument once. -/
theorem exists_load {s : Tree.Selection}
    (h : ∀ f, Tree.Selects [s] f → (f.arguments.map Prod.fst).Nodup) :
    ∃ x, Selection.load s = .ok x := by
  induction s using Tree.Selection.induct with
  | field head nested ih =>
      obtain ⟨f, hf⟩ := Field.exists_load (h head (.here (List.mem_singleton.mpr rfl)))
      obtain ⟨loaded, hl⟩ := exists_mapM_eq_ok fun s hs => ih s hs fun f hf =>
        h f (.below_field (List.mem_singleton.mpr rfl) (hf.of_mem hs))
      rw [← loadSelections_eq_mapM] at hl
      exact ⟨.field f loaded, load_field_eq_ok_iff.mpr ⟨f, loaded, hf, hl, rfl⟩⟩
  | spread fragment location directives => exact ⟨_, rfl⟩
  | inline condition location directives nested ih =>
      obtain ⟨loaded, hl⟩ := exists_mapM_eq_ok fun s hs => ih s hs fun f hf =>
        h f (.below_inline (List.mem_singleton.mpr rfl) (hf.of_mem hs))
      rw [← loadSelections_eq_mapM] at hl
      exact ⟨.inline condition location loaded, load_inline_eq_ok_iff.mpr ⟨loaded, hl, rfl⟩⟩

end Selection

/-- Selections that load mirror their trees one by one. -/
theorem mirrors_of_loadSelections {ss : List Tree.Selection} {xs : List Selection}
    (h : loadSelections ss = .ok xs) : List.Forall₂ Selection.Mirrors ss xs := by
  rw [loadSelections_eq_mapM, mapM_eq_ok_iff] at h
  exact h.imp fun _ _ hs => Selection.mirrors_of_load hs

/-- Selections load if every field that is selected, at any depth, passes each argument once. -/
theorem exists_loadSelections {ss : List Tree.Selection}
    (h : ∀ f, Tree.Selects ss f → (f.arguments.map Prod.fst).Nodup) :
    ∃ xs, loadSelections ss = .ok xs := by
  rw [loadSelections_eq_mapM]
  exact exists_mapM_eq_ok fun s hs => Selection.exists_load fun f hf => h f (hf.of_mem hs)

/-- If selections load, then so does each of them. -/
theorem exists_load_of_mem {ss : List Tree.Selection} {xs : List Selection} {s : Tree.Selection}
    (h : loadSelections ss = .ok xs) (hs : s ∈ ss) : ∃ x, Selection.load s = .ok x := by
  rw [loadSelections_eq_mapM, mapM_eq_ok_iff] at h
  exact exists_of_mem_forall₂ h hs

/-- In selections that load, every field that is selected passes each argument once. -/
theorem nodup_of_loadSelections {ss : List Tree.Selection} {xs : List Selection} {f : Tree.Field}
    (h : loadSelections ss = .ok xs) (hf : Tree.Selects ss f) :
    (f.arguments.map Prod.fst).Nodup := by
  -- The induction is on the way down to the field, and every set on the way loads.
  induction hf generalizing xs with
  | here selected =>
      obtain ⟨x, hx⟩ := exists_load_of_mem h selected
      obtain ⟨g, -, hg, -⟩ := Selection.load_field_eq_ok_iff.mp hx
      exact (Field.load_eq_ok_iff.mp hg).1
  | below_field selected _ ih =>
      obtain ⟨x, hx⟩ := exists_load_of_mem h selected
      obtain ⟨_, loaded, -, hl, -⟩ := Selection.load_field_eq_ok_iff.mp hx
      exact ih hl
  | below_inline selected _ ih =>
      obtain ⟨x, hx⟩ := exists_load_of_mem h selected
      obtain ⟨loaded, hl, -⟩ := Selection.load_inline_eq_ok_iff.mp hx
      exact ih hl

end MutationInput
