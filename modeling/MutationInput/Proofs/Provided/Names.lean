import MutationInput.Provided.Resolve
import MutationInput.Proofs.Dict
import Mathlib.Data.List.Sort
import Mathlib.Data.String.Basic

/-!
# The names that one argument provides

`Value.Provides` says which names an argument value stands for, and `Value.Fails` with which error
it stops a resolution, both without a word on how either is found. An inspection of the value gives
its names in the one case, the error in the other, and nothing in the rest: that is
`result_inspect_eq_some_iff` and `result_inspect_eq_error_iff`, from which every statement on a
whole resolution is derived.
-/
namespace MutationInput

/-! ## Names in ascending order -/

@[simp] theorem mem_sortNames (names : List String) (k : String) :
    k ∈ sortNames names ↔ k ∈ names :=
  List.mem_mergeSort

/-- Sorting names that do not repeat makes them ascend strictly. -/
theorem pairwise_sortNames {names : List String} (h : names.Nodup) :
    (sortNames names).Pairwise (· < ·) := by
  have hle : (sortNames names).Pairwise fun a b => decide (a ≤ b) = true := by
    apply List.pairwise_mergeSort
    · intro a b c hab hbc
      exact decide_eq_true (String.le_trans (of_decide_eq_true hab) (of_decide_eq_true hbc))
    · intro a b
      simpa only [Bool.or_eq_true, decide_eq_true_eq] using String.le_total a b
  have hne : (sortNames names).Pairwise (· ≠ ·) :=
    (List.mergeSort_perm names _).nodup_iff.mpr h
  exact (hle.and hne).imp fun hab => lt_of_le_of_ne (of_decide_eq_true hab.1) hab.2

/-- Names that ascend strictly are determined by their members. -/
theorem eq_sortNames {names keys : List String} (hs : names.Pairwise (· < ·)) (hk : keys.Nodup)
    (hm : ∀ k, k ∈ names ↔ k ∈ keys) : names = sortNames keys := by
  refine hs.eq_of_mem_iff (pairwise_sortNames hk) ?_
  intro k
  rw [hm, mem_sortNames]

/-- Mappings of the same names give the same list, in whatever order they hold them. -/
theorem sortNames_keys_eq {α β : Type} {m₁ : List (String × α)} {m₂ : List (String × β)}
    (h : ∀ k, k ∈ m₁.map Prod.fst ↔ k ∈ m₂.map Prod.fst) :
    sortNames (Dict.ofList m₁).keys = sortNames (Dict.ofList m₂).keys := by
  refine eq_sortNames (pairwise_sortNames (Dict.nodup_keys _)) (Dict.nodup_keys _) ?_
  intro k
  rw [mem_sortNames, Dict.keys_ofList, Dict.keys_ofList, List.mem_eraseDups, List.mem_eraseDups, h]

/-! ## What a value stands for -/

namespace Value

/-- The names that a value provides: those of a literal as they are written, each at its first
place, and those of a mapping in ascending order. -/
inductive Provides (bindings : Variables) : Value → List String → Prop where
  | literal (fields : List (String × Value)) :
      Provides bindings (.object fields) (fields.map Prod.fst).eraseDups
  | bound {name : String} {entries : List (String × Binding)} {names : List String}
      (binding : bindings.get? name = some (.mapping entries))
      (ascending : names.Pairwise (· < ·))
      (complete : ∀ k, k ∈ names ↔ k ∈ entries.map Prod.fst) :
      Provides bindings (.variable name) names

/-- Whether a value is an object literal or a variable that is bound to a mapping. -/
def contributes (bindings : Variables) : Value → Bool
  | .object _ => true
  | .variable name =>
    match bindings.get? name with
    | some (.mapping _) => true
    | _ => false
  | _ => false

/-- The names that a value provides, if it contributes. -/
def provided? (bindings : Variables) : Value → Option (List String)
  | .object fields => some (fields.map Prod.fst).eraseDups
  | .variable name =>
    match bindings.get? name with
    | some (.mapping entries) => some (sortNames (Dict.ofList entries).keys)
    | _ => none
  | _ => none

/-- A field is written in the literal or bound in the mapping, to whatever value. -/
def HasField (bindings : Variables) (field : String) : Value → Prop
  | .object fields => ∃ v, (field, v) ∈ fields
  | .variable name =>
    ∃ entries b, bindings.get? name = some (.mapping entries) ∧ (field, b) ∈ entries
  | _ => False

/-- The error with which the value of an argument stops a resolution in which `names` are
requested and bindings are required or not. -/
inductive Fails (bindings : Variables) (names : List String) (require : Bool)
    (argument : String) : Value → ProvidedError → Prop where
  | unbound {name : String} (binding : bindings.get? name = none) (required : require = true) :
      Fails bindings names require argument (.variable name) (.unboundVariable argument name)
  | literal {v : Value} (requested : names ≠ []) (not_object : ∀ fields, v ≠ .object fields)
      (not_variable : ∀ name, v ≠ .variable name) :
      Fails bindings names require argument v (.unsupportedKind argument v.kind none)
  | bound {name : String} {b : Binding} (requested : names ≠ [])
      (binding : bindings.get? name = some b) (not_mapping : ∀ entries, b ≠ .mapping entries) :
      Fails bindings names require argument (.variable name)
        (.unsupportedKind argument b.kind (some name))

/-- The ways in which a value meets the bindings, for case analysis. -/
inductive Meets (bindings : Variables) : Value → Prop where
  | object (fields : List (String × Value)) : Meets bindings (.object fields)
  | unbound {name : String} (binding : bindings.get? name = none) : Meets bindings (.variable name)
  | mapping {name : String} {entries : List (String × Binding)}
      (binding : bindings.get? name = some (.mapping entries)) : Meets bindings (.variable name)
  | plain {name : String} {b : Binding} (binding : bindings.get? name = some b)
      (not_mapping : ∀ entries, b ≠ .mapping entries) : Meets bindings (.variable name)
  | other {v : Value} (not_object : ∀ fields, v ≠ .object fields)
      (not_variable : ∀ name, v ≠ .variable name) : Meets bindings v

/-- Every value meets the bindings in one of these ways. -/
theorem meets (bindings : Variables) (v : Value) : v.Meets bindings := by
  cases v with
  | object fields => exact .object fields
  | «variable» name =>
      cases hb : bindings.get? name with
      | none => exact .unbound hb
      | some b =>
          cases b with
          | mapping entries => exact .mapping hb
          | scalar s => exact .plain hb (by simp)
          | list items => exact .plain hb (by simp)
  | _ => exact .other (by simp) (by simp)

/-- A mapping provides its names in ascending order and nothing else. -/
theorem provides_mapping_iff {bindings : Variables} {name : String}
    {entries : List (String × Binding)} {names : List String}
    (hb : bindings.get? name = some (.mapping entries)) :
    (Value.variable name).Provides bindings names ↔
      names = sortNames (Dict.ofList entries).keys := by
  have hm : ∀ k, k ∈ (Dict.ofList entries).keys ↔ k ∈ entries.map Prod.fst := by
    intro k
    rw [Dict.keys_ofList, List.mem_eraseDups]
  constructor
  · intro h
    cases h with
    | bound binding ascending complete =>
        cases hb.symm.trans binding
        exact eq_sortNames ascending (Dict.nodup_keys _) fun k => (complete k).trans (hm k).symm
  · rintro rfl
    exact .bound hb (pairwise_sortNames (Dict.nodup_keys _)) (by simpa using hm)

theorem provided?_plain {bindings : Variables} {name : String} {b : Binding}
    (hb : bindings.get? name = some b) (hm : ∀ entries, b ≠ .mapping entries) :
    (Value.variable name).provided? bindings = none := by
  cases b with
  | mapping entries => exact absurd rfl (hm entries)
  | _ => simp [provided?, hb]

theorem provided?_other {bindings : Variables} {v : Value} (ho : ∀ fields, v ≠ .object fields)
    (hv : ∀ name, v ≠ .variable name) : v.provided? bindings = none := by
  cases v with
  | object fields => exact absurd rfl (ho fields)
  | «variable» name => exact absurd rfl (hv name)
  | _ => rfl

/-- The names that are computed are those that are provided. -/
theorem provided?_eq_some_iff {bindings : Variables} {v : Value} {names : List String} :
    v.provided? bindings = some names ↔ v.Provides bindings names := by
  constructor
  · intro h
    cases v.meets bindings with
    | object fields =>
        cases h
        exact .literal fields
    | unbound hb => simp [provided?, hb] at h
    | mapping hb =>
        rw [provides_mapping_iff hb]
        simpa [provided?, hb, eq_comm] using h
    | plain hb hm => simp [provided?_plain hb hm] at h
    | other ho hv => simp [provided?_other ho hv] at h
  · intro h
    cases h with
    | literal fields => rfl
    | bound binding ascending complete =>
        have hnames := (provides_mapping_iff binding).mp (.bound binding ascending complete)
        simp [provided?, binding, hnames]

theorem isSome_provided? (bindings : Variables) (v : Value) :
    (v.provided? bindings).isSome = v.contributes bindings := by
  cases v with
  | object fields => rfl
  | «variable» name =>
      simp only [provided?, contributes]
      split <;> rfl
  | _ => rfl

/-- The values that contribute are those that provide names. -/
theorem contributes_iff {bindings : Variables} {v : Value} :
    v.contributes bindings = true ↔ ∃ names, v.Provides bindings names := by
  rw [← isSome_provided?, Option.isSome_iff_exists]
  simp only [provided?_eq_some_iff]

/-- The names that a value provides are those of its fields. -/
theorem Provides.mem_iff {bindings : Variables} {v : Value} {names : List String}
    (h : v.Provides bindings names) (field : String) :
    field ∈ names ↔ v.HasField bindings field := by
  cases h with
  | literal fields => simp [HasField]
  | bound binding _ complete => simp [HasField, binding, complete]

/-- Of the request, only whether it names arguments decides what fails. -/
theorem Fails.mono {bindings : Variables} {names names' : List String} {require : Bool}
    {argument : String} {v : Value} {e : ProvidedError}
    (h : v.Fails bindings names require argument e) (hn : names ≠ [] → names' ≠ []) :
    v.Fails bindings names' require argument e := by
  cases h with
  | unbound hb required => exact .unbound hb required
  | literal requested ho hv => exact .literal (hn requested) ho hv
  | bound requested hb hm => exact .bound (hn requested) hb hm

/-- Without a request of names and of bindings nothing fails. -/
theorem not_fails_all {bindings : Variables} {argument : String} {v : Value} {e : ProvidedError} :
    ¬v.Fails bindings [] false argument e := by
  intro h
  cases h with
  | unbound _ required => cases required
  | literal requested _ _ => exact requested rfl
  | bound requested _ _ => exact requested rfl

end Value

theorem Binding.entries?_eq_none {b : Binding} (h : ∀ entries, b ≠ .mapping entries) :
    b.entries? = none := by
  cases b with
  | mapping entries => exact absurd rfl (h entries)
  | _ => rfl

/-! ## What an inspection finds -/

namespace Inspection

variable {r : Inspection} {bindings : Variables} {argument : String}

theorem result_inspect_object (fields : List (String × Value)) :
    (r.inspect bindings argument (.object fields)).result =
      .ok (some (fields.map Prod.fst).eraseDups) := by
  rw [← Dict.keys_ofList]
  rfl

/-- A variable without binding is an error or is passed over. Its names are not asked for. -/
theorem inspect_unbound {name : String} (hb : bindings.get? name = none) :
    r.inspect bindings argument (.variable name) =
      if r.requireBound then .silent (.error (.unboundVariable argument name))
      else ⟨[.unboundSkipped argument name], .ok none⟩ := by
  have hc : bindings.contains name = false := by
    simp [Bool.eq_false_iff, Dict.contains_iff, Dict.mem_keys_iff, hb]
  simp only [inspect, hc, Bool.false_eq_true, if_false]

theorem inspect_bound {name : String} {b : Binding} (hb : bindings.get? name = some b) :
    r.inspect bindings argument (.variable name) =
      match b.entries? with
      | some entries => .silent (.ok (some (sortNames entries.keys)))
      | none =>
        if r.requested.isEmpty then ⟨[.kindSkipped argument b.kind], .ok none⟩
        else .silent (.error (.unsupportedKind argument b.kind (some name))) := by
  have hc : bindings.contains name = true := by
    simp [Dict.contains_iff, Dict.mem_keys_iff, hb]
  simp only [inspect, hc, if_true, Value.classify, ArgumentClass.fieldNames, hb]
  cases b.entries? <;> rfl

theorem inspect_other {v : Value} (ho : ∀ fields, v ≠ .object fields)
    (hv : ∀ name, v ≠ .variable name) :
    r.inspect bindings argument v =
      if r.requested.isEmpty then ⟨[.kindSkipped argument v.kind], .ok none⟩
      else .silent (.error (.unsupportedKind argument v.kind none)) := by
  cases v with
  | object fields => exact absurd rfl (ho fields)
  | «variable» name => exact absurd rfl (hv name)
  | _ => rfl

theorem result_inspect_unbound {name : String} (hb : bindings.get? name = none) :
    (r.inspect bindings argument (.variable name)).result =
      if r.requireBound then .error (.unboundVariable argument name) else .ok none := by
  rw [inspect_unbound hb]
  split <;> rfl

theorem result_inspect_bound {name : String} {b : Binding} (hb : bindings.get? name = some b) :
    (r.inspect bindings argument (.variable name)).result =
      match b.entries? with
      | some entries => .ok (some (sortNames entries.keys))
      | none =>
        if r.requested.isEmpty then .ok none
        else .error (.unsupportedKind argument b.kind (some name)) := by
  rw [inspect_bound hb]
  cases b.entries? with
  | some entries => rfl
  | none =>
      dsimp only
      split <;> rfl

theorem result_inspect_other {v : Value} (ho : ∀ fields, v ≠ .object fields)
    (hv : ∀ name, v ≠ .variable name) :
    (r.inspect bindings argument v).result =
      if r.requested.isEmpty then .ok none
      else .error (.unsupportedKind argument v.kind none) := by
  rw [inspect_other ho hv]
  split <;> rfl

/-- An inspection gives names exactly for a value that provides them. -/
theorem result_inspect_eq_some_iff {v : Value} {names : List String} :
    (r.inspect bindings argument v).result = .ok (some names) ↔ v.Provides bindings names := by
  constructor
  · intro h
    cases v.meets bindings with
    | object fields =>
        rw [result_inspect_object] at h
        cases h
        exact .literal fields
    | unbound hb =>
        rw [result_inspect_unbound hb] at h
        split at h <;> cases h
    | mapping hb =>
        rw [result_inspect_bound hb] at h
        cases h
        exact (Value.provides_mapping_iff hb).mpr rfl
    | plain hb hm =>
        simp only [result_inspect_bound hb, Binding.entries?_eq_none hm] at h
        split at h <;> cases h
    | other ho hv =>
        rw [result_inspect_other ho hv] at h
        split at h <;> cases h
  · intro h
    cases h with
    | literal fields => exact result_inspect_object fields
    | bound binding ascending complete =>
        rw [result_inspect_bound binding,
          (Value.provides_mapping_iff binding).mp (.bound binding ascending complete)]
        rfl

/-- An inspection fails exactly for a value that fails. -/
theorem result_inspect_eq_error_iff {v : Value} {e : ProvidedError} :
    (r.inspect bindings argument v).result = .error e ↔
      v.Fails bindings r.requested r.requireBound argument e := by
  constructor
  · intro h
    cases v.meets bindings with
    | object fields =>
        rw [result_inspect_object] at h
        cases h
    | unbound hb =>
        rw [result_inspect_unbound hb] at h
        split at h
        · next required =>
            cases h
            exact .unbound hb required
        · cases h
    | mapping hb =>
        rw [result_inspect_bound hb] at h
        cases h
    | plain hb hm =>
        simp only [result_inspect_bound hb, Binding.entries?_eq_none hm] at h
        split at h
        · cases h
        · next requested =>
            cases h
            exact .bound (by simpa using requested) hb hm
    | other ho hv =>
        rw [result_inspect_other ho hv] at h
        split at h
        · cases h
        · next requested =>
            cases h
            exact .literal (by simpa using requested) ho hv
  · intro h
    cases h with
    | unbound hb required => rw [result_inspect_unbound hb, if_pos required]
    | literal requested ho hv =>
        rw [result_inspect_other ho hv, if_neg (by simpa using requested)]
    | bound requested hb hm =>
        simp only [result_inspect_bound hb, Binding.entries?_eq_none hm]
        rw [if_neg (by simpa using requested)]

/-- An inspection gives what is provided, if the value does not fail. -/
theorem result_inspect_of_not_fails {v : Value}
    (h : ∀ e, ¬v.Fails bindings r.requested r.requireBound argument e) :
    (r.inspect bindings argument v).result = .ok (v.provided? bindings) := by
  cases hi : (r.inspect bindings argument v).result with
  | error e => exact absurd (result_inspect_eq_error_iff.mp hi) (h e)
  | ok found =>
      have hsome : ∀ names, found = some names ↔ v.provided? bindings = some names := by
        intro names
        rw [Value.provided?_eq_some_iff, ← result_inspect_eq_some_iff (r := r), hi,
          Except.ok.injEq]
      rw [Option.ext hsome]

end Inspection
end MutationInput
