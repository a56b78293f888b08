import MutationInput.Value
import Mathlib.Data.List.Forall2

/-!
# The values of literals

The value of a literal has the tree of the literal at every depth, `Value.Keeps`, and of what a text
can hold only numbers are changed: an integer that does not fit 64 bits with a sign becomes a float.
So a literal whose integers fit can be read off its value, `Value.toLiteral_ofLiteral`, and two
literals of this sort have the same value only if they are the same, whether or not the order of
fields counts: `Value.ofLiteral_keeps`.
-/
namespace MutationInput

/-- An integer of the number fits 64 bits with a sign. -/
def Number.FitsSigned : Number → Prop
  | .integer n => -signedBound ≤ n ∧ n < signedBound
  | .float _ => True

/-! ## Literals -/

namespace Tree.Literal

/-- A literal without bytes, in which no object holds a name twice and `P` holds of every number. -/
inductive Plain (P : Number → Prop) : Literal → Prop where
  | variable (name : String) : Plain P (.variable name)
  | number {n : Number} (holds : P n) : Plain P (.number n)
  | string (s : String) : Plain P (.string s)
  | boolean (b : Bool) : Plain P (.boolean b)
  | null : Plain P .null
  | enum (name : String) : Plain P (.enum name)
  | list {items : List Literal} (each : ∀ v ∈ items, Plain P v) : Plain P (.list items)
  | object {fields : List (String × Literal)} (names : (fields.map Prod.fst).Nodup)
      (each : ∀ e ∈ fields, Plain P e.2) : Plain P (.object fields)

/-- Two literals are equal but for the order in which the fields of objects are written. -/
inductive Alike : Literal → Literal → Prop where
  | refl (v : Literal) : Alike v v
  | list {xs ys : List Literal} (length_eq : xs.length = ys.length)
      (each : ∀ i (hx : i < xs.length) (hy : i < ys.length), Alike xs[i] ys[i]) :
      Alike (.list xs) (.list ys)
  | object {xs ys : List (String × Literal)}
      (names : ∀ k, k ∈ xs.map Prod.fst ↔ k ∈ ys.map Prod.fst)
      (each : ∀ k x y, (k, x) ∈ xs → (k, y) ∈ ys → Alike x y) :
      Alike (.object xs) (.object ys)

end Tree.Literal

namespace Value

/-! ## What a value keeps -/

/-- A value has the tree of a literal: lists have the same length and order, objects the same names
in the same order and each once, and what has no parts keeps its kind and its text. An integer of 64
bits with a sign stays what it is, and any other number becomes a float. -/
inductive Keeps : Tree.Literal → Value → Prop where
  | variable (name : String) : Keeps (.variable name) (.variable name)
  | int {n : Int} (lower : -Number.signedBound ≤ n) (upper : n < Number.signedBound) :
      Keeps (.number (.integer n)) (.int n)
  | beyond {n : Int} (outside : n < -Number.signedBound ∨ Number.signedBound ≤ n) :
      Keeps (.number (.integer n)) (.float (Binary64.ofInt n))
  | float (x : Binary64) : Keeps (.number (.float x)) (.float x)
  | string (s : String) : Keeps (.string s) (.string s)
  | boolean (b : Bool) : Keeps (.boolean b) (.boolean b)
  | null : Keeps .null .null
  | enum (name : String) : Keeps (.enum name) (.enum name)
  | list {items : List Tree.Literal} {values : List Value} (each : List.Forall₂ Keeps items values) :
      Keeps (.list items) (.list values)
  | object {fields : List (String × Tree.Literal)} {values : List (String × Value)}
      (names : values.map Prod.fst = fields.map Prod.fst) (nodup : (values.map Prod.fst).Nodup)
      (each : List.Forall₂ Keeps (fields.map Prod.snd) (values.map Prod.snd)) :
      Keeps (.object fields) (.object values)

theorem ofLiterals_eq_map (items : List Tree.Literal) :
    ofLiterals items = items.map ofLiteral := by
  induction items with
  | nil => rfl
  | cons v items ih => rw [ofLiterals, ih, List.map_cons]

theorem ofNamedLiterals_eq_map (fields : List (String × Tree.Literal)) :
    ofNamedLiterals fields = fields.map fun e => (e.1, ofLiteral e.2) := by
  induction fields with
  | nil => rfl
  | cons e fields ih => rw [ofNamedLiterals, ih, List.map_cons]

theorem ofNumber_of_fits {n : Int} (h : Number.FitsSigned (.integer n)) :
    ofNumber (.integer n) = .int n := by
  rw [Number.FitsSigned] at h
  simp only [ofNumber, Number.toSigned?, if_pos h]

theorem ofNumber_of_not_fits {n : Int} (h : ¬Number.FitsSigned (.integer n)) :
    ofNumber (.integer n) = .float (Binary64.ofInt n) := by
  rw [Number.FitsSigned] at h
  simp only [ofNumber, Number.toSigned?, if_neg h, Number.toFloat?]

/-- A number becomes an integer or a float, and is never kept as its text. -/
theorem keeps_ofNumber (n : Number) : Keeps (.number n) (ofNumber n) := by
  cases n with
  | integer n =>
      by_cases h : Number.FitsSigned (.integer n)
      · rw [ofNumber_of_fits h]
        exact .int h.1 h.2
      · rw [ofNumber_of_not_fits h]
        rw [Number.FitsSigned] at h
        exact .beyond (by omega)
  | float x => exact .float x

/-- The value of a literal without bytes has its tree. -/
theorem keeps_ofLiteral {P : Number → Prop} {v : Tree.Literal} (h : v.Plain P) :
    Keeps v (ofLiteral v) := by
  induction h with
  | «variable» name => exact .variable name
  | number _ => exact keeps_ofNumber _
  | string s => exact .string s
  | boolean b => exact .boolean b
  | null => exact .null
  | enum name => exact .enum name
  | list _ ih =>
      rw [ofLiteral, ofLiterals_eq_map]
      refine .list ?_
      rw [List.forall₂_map_right_iff, List.forall₂_same]
      exact ih
  | @object fields names _ ih =>
      have hnames : (fields.map fun e => (e.1, ofLiteral e.2)).map Prod.fst = fields.map Prod.fst := by
        rw [List.map_map]
        rfl
      rw [ofLiteral, ofNamedLiterals_eq_map]
      refine .object hnames (hnames ▸ names) ?_
      rw [List.map_map, List.forall₂_map_left_iff, List.forall₂_map_right_iff, List.forall₂_same]
      exact ih

/-! ## From a value back to the literal -/

mutual

/-- The literal that a value is written as. -/
def toLiteral : Value → Tree.Literal
  | .variable name => .variable name
  | .int n => .number (.integer n)
  | .float x => .number (.float x)
  | .string s => .string s
  | .boolean b => .boolean b
  | .null => .null
  | .enum name => .enum name
  | .list items => .list (toLiterals items)
  | .object fields => .object (toNamedLiterals fields)

/-- The literals that values are written as. -/
def toLiterals : List Value → List Tree.Literal
  | [] => []
  | v :: items => toLiteral v :: toLiterals items

/-- The named literals that named values are written as. -/
def toNamedLiterals : List (String × Value) → List (String × Tree.Literal)
  | [] => []
  | (k, v) :: fields => (k, toLiteral v) :: toNamedLiterals fields

end

theorem toLiterals_eq_map (items : List Value) : toLiterals items = items.map toLiteral := by
  induction items with
  | nil => rfl
  | cons v items ih => rw [toLiterals, ih, List.map_cons]

theorem toNamedLiterals_eq_map (fields : List (String × Value)) :
    toNamedLiterals fields = fields.map fun e => (e.1, toLiteral e.2) := by
  induction fields with
  | nil => rfl
  | cons e fields ih => rw [toNamedLiterals, ih, List.map_cons]

/-- A literal whose integers fit 64 bits with a sign comes back from its value. -/
theorem toLiteral_ofLiteral {v : Tree.Literal} (h : v.Plain Number.FitsSigned) :
    (ofLiteral v).toLiteral = v := by
  induction h with
  | @number n fits =>
      cases n with
      | integer n => rw [ofLiteral, ofNumber_of_fits fits, toLiteral]
      | float x => rfl
  | @list items _ ih =>
      rw [ofLiteral, ofLiterals_eq_map, toLiteral, toLiterals_eq_map, List.map_map]
      have hitems : items.map (toLiteral ∘ ofLiteral) = items.map id := List.map_congr_left ih
      rw [hitems, List.map_id]
  | @object fields _ _ ih =>
      rw [ofLiteral, ofNamedLiterals_eq_map, toLiteral, toNamedLiterals_eq_map, List.map_map]
      have hfields : fields.map ((fun e => (e.1, toLiteral e.2)) ∘ fun e => (e.1, ofLiteral e.2)) =
          fields.map id :=
        List.map_congr_left fun e he => congrArg (Prod.mk e.1) (ih e he)
      rw [hfields, List.map_id]
  | _ => rfl

/-! ## Equality up to order -/

/-- Two values are equal but for the order of the fields of objects. -/
inductive Alike : Value → Value → Prop where
  | refl (v : Value) : Alike v v
  | list {xs ys : List Value} (length_eq : xs.length = ys.length)
      (each : ∀ i (hx : i < xs.length) (hy : i < ys.length), Alike xs[i] ys[i]) :
      Alike (.list xs) (.list ys)
  | object {xs ys : List (String × Value)}
      (names : ∀ k, k ∈ xs.map Prod.fst ↔ k ∈ ys.map Prod.fst)
      (each : ∀ k x y, (k, x) ∈ xs → (k, y) ∈ ys → Alike x y) :
      Alike (.object xs) (.object ys)

theorem Alike.toLiteral {x y : Value} (h : x.Alike y) : x.toLiteral.Alike y.toLiteral := by
  induction h with
  | refl x => exact .refl _
  | list length_eq _ ih =>
      rw [Value.toLiteral, Value.toLiteral, toLiterals_eq_map, toLiterals_eq_map]
      refine .list (by simpa using length_eq) fun i hx hy => ?_
      rw [List.length_map] at hx hy
      rw [List.getElem_map, List.getElem_map]
      exact ih i hx hy
  | object names _ ih =>
      rw [Value.toLiteral, Value.toLiteral, toNamedLiterals_eq_map, toNamedLiterals_eq_map]
      refine .object (fun k => ?_) fun k x y hx hy => ?_
      · rw [List.map_map, List.map_map]
        exact names k
      · obtain ⟨⟨k, v⟩, hv, heq⟩ := List.mem_map.mp hx
        cases heq
        obtain ⟨⟨_, w⟩, hw, heq⟩ := List.mem_map.mp hy
        cases heq
        exact ih _ v w hv hw

/-- The value of a literal has its tree, and two literals whose integers fit 64 bits with a sign have
the same value, with or without regard to the order of fields, only if they are the same. -/
theorem ofLiteral_keeps :
    (∀ (P : Number → Prop) (v : Tree.Literal), v.Plain P → Keeps v (ofLiteral v)) ∧
      ∀ v w : Tree.Literal, v.Plain Number.FitsSigned → w.Plain Number.FitsSigned →
        (ofLiteral v = ofLiteral w → v = w) ∧ ((ofLiteral v).Alike (ofLiteral w) → v.Alike w) := by
  refine ⟨fun _ _ => keeps_ofLiteral, fun v w hv hw => ⟨fun h => ?_, fun h => ?_⟩⟩
  · rw [← toLiteral_ofLiteral hv, h, toLiteral_ofLiteral hw]
  · have hback := h.toLiteral
    rwa [toLiteral_ofLiteral hv, toLiteral_ofLiteral hw] at hback

end Value

/-- An object with the least and the greatest integer of 64 bits with a sign, next to `last`. -/
def Tree.Literal.bounds (last : Tree.Literal) : Tree.Literal :=
  .object [("limits", .list [.number (.integer (-9223372036854775808)),
      .number (.integer 9223372036854775807)]), ("last", last)]

theorem Tree.Literal.plain_bounds {P : Number → Prop} {last : Tree.Literal}
    (hleast : P (.integer (-9223372036854775808))) (hgreatest : P (.integer 9223372036854775807))
    (hlast : last.Plain P) : (bounds last).Plain P := by
  have hlimits : (Tree.Literal.list [.number (.integer (-9223372036854775808)),
      .number (.integer 9223372036854775807)]).Plain P :=
    .list (List.forall_mem_cons.mpr
      ⟨.number hleast, List.forall_mem_singleton.mpr (.number hgreatest)⟩)
  exact .object (by decide : ["limits", "last"].Nodup)
    (List.forall_mem_cons.mpr ⟨hlimits, List.forall_mem_singleton.mpr hlast⟩)

/-- Both ends stay integers, the integer behind the greatest one becomes a float, and a word is not
mistaken for a string. -/
theorem ofLiteral_keeps_bounds :
    Value.Keeps (.bounds (.number (.integer 9223372036854775808)))
        (.object [("limits", .list [.int (-9223372036854775808), .int 9223372036854775807]),
          ("last", .float (Binary64.ofInt 9223372036854775808))]) ∧
      Value.ofLiteral (.bounds (.enum "DONE")) ≠ Value.ofLiteral (.bounds (.string "DONE")) ∧
      ¬(Value.ofLiteral (.bounds (.enum "DONE"))).Alike
        (Value.ofLiteral (.bounds (.string "DONE"))) := by
  have hplain : ∀ last : Tree.Literal, last.Plain Number.FitsSigned →
      (Tree.Literal.bounds last).Plain Number.FitsSigned := fun _ =>
    Tree.Literal.plain_bounds ⟨by decide, by decide⟩ ⟨by decide, by decide⟩
  have hapart := Value.ofLiteral_keeps.2 _ _ (hplain _ (.enum "DONE")) (hplain _ (.string "DONE"))
  refine ⟨?_, fun h => ?_, fun h => ?_⟩
  · exact Value.ofLiteral_keeps.1 (fun _ => True) _
      (Tree.Literal.plain_bounds trivial trivial (.number trivial))
  · cases hapart.1 h
  · have hback := hapart.2 h
    rw [Tree.Literal.bounds, Tree.Literal.bounds] at hback
    cases hback with
    | object _ each =>
        cases each "last" (.enum "DONE") (.string "DONE") (.tail _ (.head _)) (.tail _ (.head _))

end MutationInput
