import MutationInput.Proofs.Provided.Gather

/-!
# What a resolution provides

The result of a resolution has an entry for each argument with an occurrence that contributes. The
entry stands where the first of these occurrences put it and holds the names of the last one. An
occurrence that contributes nothing changes nothing, wherever it stands.
-/
namespace MutationInput

/-- An occurrence contributes and is the last of its argument that does, among those that are
inspected for a field when some names are requested. -/
def Operation.LastContributes (op : Operation) (bindings : Variables) (fieldName : String)
    (names : List String) (o : Occurrence) : Prop :=
  o.value.contributes bindings = true ∧
    ∃ before after, op.occurrences fieldName names.eraseDups = before ++ o :: after ∧
      ∀ later ∈ after, later.argument = o.argument → later.value.contributes bindings = false

namespace Occurrence

variable {bindings : Variables} {os : List Occurrence}

theorem contribution?_eq_some_iff {o : Occurrence} {argument : String} {names : List String} :
    o.contribution? bindings = some (argument, names) ↔
      o.argument = argument ∧ o.value.Provides bindings names := by
  simp only [contribution?, Option.map_eq_some_iff, Value.provided?_eq_some_iff, Prod.mk.injEq]
  constructor
  · rintro ⟨names', h, rfl, rfl⟩
    exact ⟨rfl, h⟩
  · rintro ⟨rfl, h⟩
    exact ⟨names, h, rfl, rfl⟩

/-- The arguments of the entries are those of the occurrences that contribute. -/
theorem map_fst_contributions (bindings : Variables) (os : List Occurrence) :
    (os.filterMap (contribution? bindings)).map Prod.fst =
      (os.filter fun o => o.value.contributes bindings).map argument := by
  induction os with
  | nil => rfl
  | cons o rest ih =>
      have hc := Value.isSome_provided? bindings o.value
      cases hv : o.value.provided? bindings with
      | none =>
          rw [hv] at hc
          have he : o.contribution? bindings = none := by simp [contribution?, hv]
          rw [List.filterMap_cons_none he, ih, List.filter_cons_of_neg (by simp [← hc])]
      | some names =>
          rw [hv] at hc
          have he : o.contribution? bindings = some (o.argument, names) := by
            simp [contribution?, hv]
          rw [List.filterMap_cons_some he, List.filter_cons_of_pos (by simp [← hc]),
            List.map_cons, List.map_cons, ih]

/-- An entry is that of the last occurrence of its argument that contributes. -/
theorem get?_contributions_iff {a : String} {names : List String} :
    (Dict.ofList (os.filterMap (contribution? bindings))).get? a = some names ↔
      ∃ before o after, os = before ++ o :: after ∧ o.argument = a ∧
        o.value.Provides bindings names ∧
        ∀ later ∈ after, later.argument = a → later.value.contributes bindings = false := by
  have hlater : ∀ after : List Occurrence,
      a ∉ (after.filterMap (contribution? bindings)).map Prod.fst ↔
        ∀ later ∈ after, later.argument = a → later.value.contributes bindings = false := by
    intro after
    rw [map_fst_contributions]
    simp only [List.mem_map, List.mem_filter, not_exists, not_and, and_imp]
    exact ⟨fun h l hl ha => by simpa using fun hc => h l hl hc ha,
      fun h l hl hc ha => by simp [h l hl ha] at hc⟩
  rw [Dict.get?_ofList_eq_some_iff]
  constructor
  · rintro ⟨before, after, hsplit, hafter⟩
    obtain ⟨os₁, os₂, rfl, -, h₂⟩ := List.filterMap_eq_append_iff.mp hsplit
    obtain ⟨skipped, o, rest, rfl, -, ho, rfl⟩ := List.filterMap_eq_cons_iff.mp h₂
    obtain ⟨ha, hnames⟩ := contribution?_eq_some_iff.mp ho
    exact ⟨os₁ ++ skipped, o, rest, by simp, ha, hnames, (hlater rest).mp hafter⟩
  · rintro ⟨before, o, after, rfl, ha, hnames, hafter⟩
    refine ⟨before.filterMap (contribution? bindings), after.filterMap (contribution? bindings), ?_,
      (hlater after).mpr hafter⟩
    have ho : o.contribution? bindings = some (a, names) :=
      contribution?_eq_some_iff.mpr ⟨ha, hnames⟩
    rw [List.filterMap_append, List.filterMap_cons_some ho]

end Occurrence

theorem ProvidedFields.containsField_iff (p : ProvidedFields) (a field : String) :
    p.containsField a field = true ↔ ∃ fields, p.get? a = some fields ∧ field ∈ fields := by
  simp only [ProvidedFields.containsField, ProvidedFields.fields, List.contains_iff_mem]
  cases p.get? a <;> simp

/-- Provided fields are what the occurrences of a field provide when some names are requested. -/
structure ProvidedFields.Reflects (p : ProvidedFields) (op : Operation) (bindings : Variables)
    (fieldName : String) (names : List String) : Prop where
  /-- The arguments are those with an occurrence that contributes. -/
  mem_keys : ∀ a, a ∈ p.keys ↔ ∃ o, op.Inspects fieldName names o ∧ o.argument = a ∧
    o.value.contributes bindings = true
  /-- The names of an argument are those that the last such occurrence provides. -/
  get?_eq_some : ∀ a fields, p.get? a = some fields ↔
    ∃ o, op.LastContributes bindings fieldName names o ∧ o.argument = a ∧
      o.value.Provides bindings fields
  /-- A field is contained if it is in the value of the last such occurrence. -/
  containsField : ∀ a field, p.containsField a field = true ↔
    ∃ o, op.LastContributes bindings fieldName names o ∧ o.argument = a ∧
      o.value.HasField bindings field
  /-- The arguments stand in the order of the first such occurrences. -/
  keys_eq : p.keys = (((op.occurrences fieldName names.eraseDups).filter fun o =>
    o.value.contributes bindings).map Occurrence.argument).eraseDups

/-- A resolution that succeeds reflects the occurrences of its field. -/
theorem resolve_reflects {ctx : Context} {op : Operation} {fieldName : String}
    {names : List String} {require : Bool} {p : ProvidedFields}
    (hop : ctx.operation = some op) (hkind : op.kind = .mutation)
    (hfield : ctx.fieldName = some fieldName)
    (hp : (((Inspection.all.request names).requiring require).resolve ctx).result = .ok p) :
    p.Reflects op ctx.bindings fieldName names := by
  let os := op.occurrences fieldName names.eraseDups
  have hentries : p = Dict.ofList (os.filterMap (Occurrence.contribution? ctx.bindings)) := by
    have h := ((Inspection.resolve_eq_ok_iff hop hkind hfield).mp hp).2.2
    rwa [Inspection.requiring, Inspection.requested_all_request] at h
  have hkeys : p.keys = ((os.filter fun o =>
      o.value.contributes ctx.bindings).map Occurrence.argument).eraseDups := by
    rw [hentries, Dict.keys_ofList, Occurrence.map_fst_contributions]
  have hget : ∀ a fields, p.get? a = some fields ↔
      ∃ o, op.LastContributes ctx.bindings fieldName names o ∧ o.argument = a ∧
        o.value.Provides ctx.bindings fields := by
    intro a fields
    rw [hentries, Occurrence.get?_contributions_iff]
    constructor
    · rintro ⟨before, o, after, hsplit, rfl, hprovides, hlater⟩
      exact ⟨o, ⟨Value.contributes_iff.mpr ⟨fields, hprovides⟩, before, after, hsplit, hlater⟩, rfl,
        hprovides⟩
    · rintro ⟨o, ⟨-, before, after, hsplit, hlater⟩, rfl, hprovides⟩
      exact ⟨before, o, after, hsplit, rfl, hprovides, hlater⟩
  refine ⟨?_, hget, ?_, hkeys⟩
  · intro a
    rw [hkeys, List.mem_eraseDups, List.mem_map]
    simp only [List.mem_filter, os, Operation.mem_occurrences, Operation.inspects_eraseDups]
    constructor
    · rintro ⟨o, ⟨ho, hc⟩, rfl⟩
      exact ⟨o, ho, rfl, hc⟩
    · rintro ⟨o, ho, rfl, hc⟩
      exact ⟨o, ⟨ho, hc⟩, rfl⟩
  · intro a field
    rw [ProvidedFields.containsField_iff]
    constructor
    · rintro ⟨fields, hf, hmem⟩
      obtain ⟨o, hlast, ha, hprovides⟩ := (hget a fields).mp hf
      exact ⟨o, hlast, ha, (hprovides.mem_iff field).mp hmem⟩
    · rintro ⟨o, hlast, ha, hhas⟩
      obtain ⟨fields, hprovides⟩ := Value.contributes_iff.mp hlast.1
      exact ⟨fields, (hget a fields).mpr ⟨o, hlast, ha, hprovides⟩,
        (hprovides.mem_iff field).mpr hhas⟩

/-- A mutation that saves twice: under an alias with a literal and a variable, and, after another
field, with a variable without binding and a literal in place of the first variable. -/
def Operation.savesTwice : Operation :=
  { Operation.ofKind .mutation with
    selections := [
      .field ⟨some "first", "save", ⟨1, 12⟩, Dict.ofList
        [("input", .object [("id", .int 1), ("name", .null)]), ("extra", .variable "patch"),
          ("tags", .variable "patch")]⟩ [],
      .field ⟨none, "load", ⟨2, 12⟩, Dict.ofList [("input", .object [("key", .int 1)])]⟩ [],
      .field ⟨none, "save", ⟨3, 12⟩, Dict.ofList
        [("limit", .int 3), ("input", .variable "missing"),
          ("extra", .object [("note", .null)])]⟩ []] }

/-- Bindings with one variable that is bound to a mapping. -/
def Variables.patch : Variables :=
  Dict.ofList [("patch", .mapping [("title", .scalar .null), ("body", .scalar .null)])]

/-- The first literal stays, as the variable in its place has no binding; the second one replaces
the names of the mapping, and keeps their place. -/
theorem resolve_reflects_savesTwice :
    (((Inspection.all.request []).requiring false).resolve
        ⟨some Operation.savesTwice, some "save", Variables.patch⟩).result =
      .ok (Dict.ofList
        [("input", ["id", "name"]), ("extra", ["note"]), ("tags", ["body", "title"])]) ∧
      ProvidedFields.Reflects (Dict.ofList
        [("input", ["id", "name"]), ("extra", ["note"]), ("tags", ["body", "title"])])
        Operation.savesTwice Variables.patch "save" [] := by
  have h : (((Inspection.all.request []).requiring false).resolve
      ⟨some Operation.savesTwice, some "save", Variables.patch⟩).result =
        .ok (Dict.ofList
          [("input", ["id", "name"]), ("extra", ["note"]), ("tags", ["body", "title"])]) := by
    have hpatch : ∀ s a, Occurrence.contribution? Variables.patch ⟨s, a, .variable "patch"⟩ =
        some (a, ["body", "title"]) := fun s a =>
      Occurrence.contribution?_eq_some_iff.mpr ⟨rfl, .bound rfl (by decide) (by simp [or_comm])⟩
    have hcontributions : (Operation.savesTwice.occurrences "save" []).filterMap
        (Occurrence.contribution? Variables.patch) =
          [("input", ["id", "name"]), ("extra", ["body", "title"]), ("tags", ["body", "title"]),
            ("extra", ["note"])] := by
      change List.filterMap _ (Occurrence.mk _ "input" _ :: .mk _ "extra" (.variable "patch") ::
        .mk _ "tags" (.variable "patch") :: _) = _
      rw [List.filterMap_cons_some (f := Occurrence.contribution? _) rfl,
        List.filterMap_cons_some (hpatch _ _),
        List.filterMap_cons_some (hpatch _ _)]
      rfl
    refine (Inspection.resolve_eq_ok_iff rfl rfl rfl).mpr ⟨by decide, fun o _ e hfails => ?_, ?_⟩
    · exact Value.not_fails_all hfails
    · change _ = Dict.ofList ((Operation.savesTwice.occurrences "save" []).filterMap _)
      rw [hcontributions]
      rfl
  exact ⟨h, resolve_reflects rfl rfl rfl h⟩

end MutationInput
