import MutationInput.Response.Basic
import MutationInput.Proofs.Tree.Words

/-!
# The text of a path

A path can be read off its text if its fields are names: a name ends at a point, at a bracket or at
the end of the text, an index ends at its bracket, and what comes next tells a field from an index.
So a text belongs to one path only, `pathText?_distinguishes`. A field that is no name could hold a
point or a bracket of its own.
-/
namespace MutationInput

open MutationInput.Tree (IsName)
open MutationInput.Tree.Parser (Stops stops_cons stops_nil)

/-- A run of characters of a class, up to one that is not in it, is determined by the text. -/
theorem append_inj_of_stops {p : Char → Bool} {xs ys s t : List Char}
    (hxs : ∀ c ∈ xs, p c = true) (hys : ∀ c ∈ ys, p c = true) (hs : Stops p s) (ht : Stops p t)
    (h : xs ++ s = ys ++ t) : xs = ys ∧ s = t := by
  have hrun : ∀ {zs u : List Char}, (∀ c ∈ zs, p c = true) → Stops p u →
      (zs ++ u).takeWhile p = zs := by
    intro zs u hzs hu
    rw [List.takeWhile_append_of_pos hzs]
    cases u with
    | nil => simp
    | cons c u => simp [stops_cons.mp hu]
  have hxy : xs = ys := by rw [← hrun hxs hs, h, hrun hys ht]
  subst hxy
  exact ⟨rfl, List.append_cancel_left h⟩

namespace PathSegment

/-- The field of a segment is a name. An index is always fine. -/
def IsPlain : PathSegment → Prop
  | .index _ => True
  | .field name => IsName name

/-- The text of segments that follow others. -/
def following : List PathSegment → List Char
  | [] => []
  | .field name :: rest => '.' :: (name.toList ++ following rest)
  | .index n :: rest => '[' :: (Nat.toDigits 10 n ++ ']' :: following rest)

/-- Behind other segments every segment is written in the same way. -/
theorem toList_renderFrom {written : String} (h : written ≠ "") (path : List PathSegment) :
    (renderFrom written path).toList = written.toList ++ following path := by
  induction path generalizing written with
  | nil => simp [renderFrom, following]
  | cons s rest ih =>
      cases s with
      | field name =>
          have hsome : written.isEmpty = false := by simpa using h
          rw [renderFrom, hsome, if_neg Bool.false_ne_true, ih (by simp [h]), following]
          simp
      | index n =>
          rw [renderFrom, ih (by simp [h]), following]
          simp

/-- A field that comes first is written without a point. -/
theorem toList_renderFrom_field {name : String} (hname : IsName name) (rest : List PathSegment) :
    (renderFrom "" (.field name :: rest)).toList = name.toList ++ following rest := by
  have hsome : name ≠ "" := by
    rintro rfl
    obtain ⟨_, _, h, -⟩ := hname
    cases h
  rw [renderFrom]
  exact toList_renderFrom hsome rest

theorem toList_renderFrom_index (n : Nat) (rest : List PathSegment) :
    (renderFrom "" (.index n :: rest)).toList = following (.index n :: rest) := by
  rw [renderFrom, toList_renderFrom (by simp), following]
  simp

theorem stops_following {q : Char → Bool} (hpoint : q '.' = false) (hbracket : q '[' = false)
    (path : List PathSegment) : Stops q (following path) := by
  cases path with
  | nil => exact stops_nil q
  | cons s rest =>
      cases s with
      | field name => exact stops_cons.mpr hpoint
      | index n => exact stops_cons.mpr hbracket

/-- A name ends where the next segment begins. -/
theorem eq_of_name_following {a b : String} {p q : List PathSegment} (ha : IsName a) (hb : IsName b)
    (h : a.toList ++ following p = b.toList ++ following q) : a = b ∧ following p = following q := by
  have hchars : ∀ {n : String}, IsName n → ∀ c ∈ n.toList, Tree.Parser.isNameChar c = true := by
    intro n hn c hc
    obtain ⟨d, ds, hds, hd, hmore⟩ := hn.exists_cons
    rw [hds] at hc
    rcases List.mem_cons.mp hc with rfl | hc
    · simp [Tree.Parser.isNameChar, hd]
    · exact hmore c hc
  obtain ⟨hab, hpq⟩ := append_inj_of_stops (hchars ha) (hchars hb)
    (stops_following (by decide) (by decide) p) (stops_following (by decide) (by decide) q) h
  exact ⟨String.toList_inj.mp hab, hpq⟩

/-- An index ends at its bracket, and its digits determine it. -/
theorem eq_of_index_following {m n : Nat} {p q : List PathSegment}
    (h : following (.index m :: p) = following (.index n :: q)) :
    m = n ∧ following p = following q := by
  have hdigits : ∀ {k : Nat}, ∀ c ∈ Nat.toDigits 10 k, c.isDigit = true := fun _ hc =>
    Nat.isDigit_of_mem_toDigits (by decide) (by decide) hc
  have hbracket : ∀ rest : List Char, Stops Char.isDigit (']' :: rest) := fun _ =>
    stops_cons.mpr (by decide)
  obtain ⟨hmn, hpq⟩ := append_inj_of_stops hdigits hdigits (hbracket _) (hbracket _)
    (List.cons.inj h).2
  refine ⟨?_, (List.cons.inj hpq).2⟩
  rw [← Json.value_toDigits m, hmn, Json.value_toDigits]

/-- The text behind other segments determines the segments. -/
theorem eq_of_following_eq {p q : List PathSegment} (hp : ∀ s ∈ p, s.IsPlain)
    (hq : ∀ s ∈ q, s.IsPlain) (h : following p = following q) : p = q := by
  induction p generalizing q with
  | nil =>
      cases q with
      | nil => rfl
      | cons t q => cases t <;> cases h
  | cons s p ih =>
      cases q with
      | nil => cases s <;> cases h
      | cons t q =>
          obtain ⟨hs, hp'⟩ := List.forall_mem_cons.mp hp
          obtain ⟨ht, hq'⟩ := List.forall_mem_cons.mp hq
          cases s with
          | field a =>
              cases t with
              | field b =>
                  obtain ⟨rfl, hpq⟩ := eq_of_name_following hs ht (List.cons.inj h).2
                  rw [ih hp' hq' hpq]
              | index n => cases (List.cons.inj h).1
          | index m =>
              cases t with
              | field b => cases (List.cons.inj h).1
              | index n =>
                  obtain ⟨rfl, hpq⟩ := eq_of_index_following h
                  rw [ih hp' hq' hpq]

/-- A name does not begin with a bracket, as an index does. -/
theorem name_ne_index {a : String} (ha : IsName a) {text rest : List Char} :
    a.toList ++ text ≠ '[' :: rest := by
  intro h
  have hstops := ha.stops (q := (· == '[')) (fun c hc => by rw [eq_of_beq hc]; decide) text
  rw [h, stops_cons] at hstops
  cases hstops

/-- The text of a path that is not empty determines the path. -/
theorem eq_of_renderFrom_eq {p q : List PathSegment} (hp : ∀ s ∈ p, s.IsPlain)
    (hq : ∀ s ∈ q, s.IsPlain) (hpsome : p ≠ []) (hqsome : q ≠ [])
    (h : renderFrom "" p = renderFrom "" q) : p = q := by
  obtain ⟨s, p, rfl⟩ := List.exists_cons_of_ne_nil hpsome
  obtain ⟨t, q, rfl⟩ := List.exists_cons_of_ne_nil hqsome
  have htext := congrArg String.toList h
  have hs := (List.forall_mem_cons.mp hp).1
  have ht := (List.forall_mem_cons.mp hq).1
  cases s with
  | field a =>
      cases t with
      | field b =>
          rw [toList_renderFrom_field hs, toList_renderFrom_field ht] at htext
          -- Behind other segments both would be written with one more point.
          exact eq_of_following_eq hp hq (congrArg (List.cons '.') htext)
      | index n =>
          rw [toList_renderFrom_field hs, toList_renderFrom_index] at htext
          exact absurd htext (name_ne_index hs)
  | index m =>
      cases t with
      | field b =>
          rw [toList_renderFrom_index, toList_renderFrom_field ht] at htext
          exact absurd htext.symm (name_ne_index ht)
      | index n =>
          rw [toList_renderFrom_index, toList_renderFrom_index] at htext
          exact eq_of_following_eq hp hq htext

end PathSegment

namespace ResponseError

theorem pathText?_eq_none_iff (e : ResponseError) :
    e.pathText? = none ↔ e.path = none ∨ e.path = some [] := by
  rw [pathText?]
  split <;> simp_all

theorem pathText?_of_path {e : ResponseError} {path : List PathSegment} (h : e.path = some path)
    (hsome : path ≠ []) : e.pathText? = some (PathSegment.renderFrom "" path) := by
  rw [pathText?, h]
  cases path with
  | nil => exact absurd rfl hsome
  | cons s rest => rfl

/-- A path has a text unless it is missing or empty, and two paths whose fields are names have the
same text only if they are the same. -/
theorem pathText?_distinguishes :
    (∀ e : ResponseError, e.pathText? = none ↔ e.path = none ∨ e.path = some []) ∧
      ∀ (e e' : ResponseError) (p p' : List PathSegment), e.path = some p → e'.path = some p' →
        p ≠ [] → p' ≠ [] → (∀ s ∈ p, s.IsPlain) → (∀ s ∈ p', s.IsPlain) →
        e.pathText? = e'.pathText? → p = p' := by
  refine ⟨pathText?_eq_none_iff, fun e e' p p' he he' hsome hsome' hp hp' h => ?_⟩
  rw [pathText?_of_path he hsome, pathText?_of_path he' hsome'] at h
  exact PathSegment.eq_of_renderFrom_eq hp hp' hsome hsome' (Option.some.inj h)

/-- Digits at the end of a name are not taken for those of an index, nor the other way round. -/
theorem pathText?_distinguishes_digits :
    (∀ s ∈ [PathSegment.index 0, .field "a1", .index 2], s.IsPlain) ∧
      (∀ s ∈ [PathSegment.index 0, .field "a", .index 12], s.IsPlain) ∧
      (⟨"", none, some [.index 0, .field "a1", .index 2], none⟩ : ResponseError).pathText? =
        some "[0].a1[2]" ∧
      (⟨"", none, some [.index 0, .field "a1", .index 2], none⟩ : ResponseError).pathText? ≠
        (⟨"", none, some [.index 0, .field "a", .index 12], none⟩ : ResponseError).pathText? := by
  have hplain : ∀ {a : String} {n : Nat}, IsName a →
      ∀ s ∈ [PathSegment.index 0, .field a, .index n], s.IsPlain := by
    intro a n ha s hs
    simp only [List.mem_cons, List.not_mem_nil, or_false] at hs
    obtain rfl | rfl | rfl := hs
    · trivial
    · exact ha
    · trivial
  have hlong : ∀ s ∈ [PathSegment.index 0, .field "a1", .index 2], s.IsPlain :=
    hplain (by decide +kernel)
  have hshort : ∀ s ∈ [PathSegment.index 0, .field "a", .index 12], s.IsPlain :=
    hplain (by decide +kernel)
  refine ⟨hlong, hshort, rfl, fun h => ?_⟩
  have heq := pathText?_distinguishes.2 _ _ _ _ rfl rfl (by simp) (by simp) hlong hshort h
  exact absurd heq (by decide)

end ResponseError

end MutationInput
