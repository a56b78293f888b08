import MutationInput.Json.Mismatch
import MutationInput.Proofs.Json.Shrinking

/-!
# Readers that accord with decoding

A reader *accords* with decoding a value if it succeeds where decoding does, with the same result
and the same rest of the text, and fails where decoding fails. Where it may also fail on its own, it
*confirms* decoding. Both are comparisons: they hold of the loop over items if they hold of each
item, `Comparison.readArray`, and likewise for members, `Comparison.readObject`.
-/
namespace MutationInput.Json

/-- Decoding and reading both succeed with the same result, leaving `rest`, or both fail. -/
inductive Accords {α : Type} (rest : Source) :
    Except Mismatch α → Except Fault (α × Source) → Prop where
  | ok (x : α) : Accords rest (.ok x) (.ok (x, rest))
  | error (e : Mismatch) (fault : Fault) : Accords rest (.error e) (.error fault)

namespace Accords

variable {α β : Type} {rest rest' : Source} {r : Except Mismatch α}
  {q : Except Fault (α × Source)}

/-- Two steps accord if both do. -/
theorem bind (h : Accords rest r q) {f : α → Except Mismatch β}
    {g : α × Source → Except Fault (β × Source)}
    (hfg : ∀ x, r = .ok x → Accords rest' (f x) (g (x, rest))) :
    Accords rest' (r >>= f) (q >>= g) := by
  cases h with
  | ok x => exact hfg x rfl
  | error e fault => exact .error e fault

theorem map (h : Accords rest r q) (f : α → β) :
    Accords rest (r.map f) (q.map fun r => (f r.1, r.2)) := by
  cases h with
  | ok x => exact .ok (f x)
  | error e fault => exact .error e fault

/-- Decoding may fail in another way. -/
theorem congr (h : Accords rest r q) {r' : Except Mismatch α} (hr : ∀ x, r = .ok x ↔ r' = .ok x) :
    Accords rest r' q := by
  cases h with
  | ok x =>
      rw [(hr x).mp rfl]
      exact .ok x
  | error e fault =>
      cases r' with
      | ok x => cases (hr x).mpr rfl
      | error e' => exact .error e' fault

theorem eq_ok {x : α} (h : Accords rest (.ok x) q) : q = .ok (x, rest) := by
  cases h
  rfl

end Accords

/-- If reading succeeds, decoding does so with the same result, and `rest` is left. -/
inductive Confirms {α : Type} (rest : Source) :
    Except Mismatch α → Except Fault (α × Source) → Prop where
  | ok (x : α) : Confirms rest (.ok x) (.ok (x, rest))
  | error (r : Except Mismatch α) (fault : Fault) : Confirms rest r (.error fault)

namespace Confirms

variable {α β : Type} {rest rest' : Source} {r : Except Mismatch α}
  {q : Except Fault (α × Source)}

theorem of_accords (h : Accords rest r q) : Confirms rest r q := by
  cases h with
  | ok x => exact .ok x
  | error e fault => exact .error _ fault

theorem bind (h : Confirms rest r q) {f : α → Except Mismatch β}
    {g : α × Source → Except Fault (β × Source)}
    (hfg : ∀ x, Confirms rest' (f x) (g (x, rest))) : Confirms rest' (r >>= f) (q >>= g) := by
  cases h with
  | ok x => exact hfg x
  | error r fault => exact .error _ fault

theorem map (h : Confirms rest r q) (f : α → β) :
    Confirms rest (r.map f) (q.map fun r => (f r.1, r.2)) := by
  cases h with
  | ok x => exact .ok (f x)
  | error r fault => exact .error _ fault

theorem eq_ok {x : α} (h : Confirms rest r (.ok (x, rest'))) : r = .ok x ∧ rest' = rest := by
  cases h
  exact ⟨rfl, rfl⟩

end Confirms

/-- A relation between decoding and reading that holds where both give the same and where both
fail, and of steps if it holds of each. -/
structure Comparison
    (R : ∀ {α : Type}, Source → Except Mismatch α → Except Fault (α × Source) → Prop) : Prop where
  ok : ∀ {α : Type} (rest : Source) (x : α), R rest (.ok x) (.ok (x, rest))
  error : ∀ {α : Type} (rest : Source) (e : Mismatch) (fault : Fault),
    R (α := α) rest (.error e) (.error fault)
  bind : ∀ {α β : Type} {rest rest' : Source} {r : Except Mismatch α}
    {q : Except Fault (α × Source)} {f : α → Except Mismatch β}
    {g : α × Source → Except Fault (β × Source)}, R rest r q →
      (∀ x, R rest' (f x) (g (x, rest))) → R rest' (r >>= f) (q >>= g)
  map : ∀ {α β : Type} {rest : Source} {r : Except Mismatch α} {q : Except Fault (α × Source)},
    R rest r q → ∀ f : α → β, R rest (r.map f) (q.map fun r => (f r.1, r.2))

theorem Accords.comparison : Comparison @Accords where
  ok _ := .ok
  error _ := .error
  bind h hfg := h.bind fun x _ => hfg x
  map h := h.map

theorem Confirms.comparison : Comparison @Confirms where
  ok _ := .ok
  error _ _ := .error _
  bind h := h.bind
  map h := h.map

section Loops

variable {α β κ σ : Type} {value : Source → Except Fault (α × Source)}
  {item : Source → Except Fault (β × Source)} {f : α → Except Mismatch β}
  {name : Source → Except Fault (κ × Source)} {key : String → κ}
  {member : σ → κ → Source → Except Fault (σ × Source)} {step : σ → String × α → Except Mismatch σ}

/-- Each of these items is read by `item` as it is decoded by `f`, in texts up to a length. -/
def ItemsAccord (value : Source → Except Fault (α × Source)) (f : α → Except Mismatch β)
    (item : Source → Except Fault (β × Source)) (xs : List α) (length : Nat) : Prop :=
  ∀ t x r, t.length ≤ length → x ∈ xs → value t = .ok (x, r) → Accords r (f x) (item t)

/-- Each of these members is read by `member` as it is decoded by `step`, in texts up to a
length. -/
def MembersAccord (value : Source → Except Fault (α × Source))
    (step : σ → String × α → Except Mismatch σ) (key : String → κ)
    (member : σ → κ → Source → Except Fault (σ × Source)) (es : List (String × α))
    (length : Nat) : Prop :=
  ∀ x t k v r, t.length ≤ length → (k, v) ∈ es → expectColon t >>= value = .ok (v, r) →
    Accords r (step x (k, v)) (member x (key k) t)

namespace Comparison

variable {R : ∀ {α : Type}, Source → Except Mismatch α → Except Fault (α × Source) → Prop}

/-- What holds of each item that is read elsewhere and decoded holds of all of them. -/
theorem items (hR : Comparison @R) {s rest : Source} {xs : List α}
    (hitems : Items value s xs rest) (hvalue : Shrinks value)
    (h : ∀ t x r, t.length ≤ s.length → x ∈ xs → value t = .ok (x, r) → R r (f x) (item t))
    {fuel : Nat} (hfuel : xs.length ≤ fuel) : R rest (xs.mapM f) (readItems item fuel s) := by
  induction hitems generalizing fuel with
  | @last s s' rest x read close =>
      obtain ⟨fuel, rfl⟩ := Nat.exists_eq_add_one_of_ne_zero (Nat.ne_zero_of_lt hfuel)
      rw [List.mapM_cons]
      refine hR.bind (h s x s' (Nat.le_refl _) (by simp) read) fun y => ?_
      simp only [close]
      exact hR.ok _ [y]
  | @comma s s' s'' rest x xs read comma more another tail ih =>
      obtain ⟨fuel, rfl⟩ := Nat.exists_eq_add_one_of_ne_zero (Nat.ne_zero_of_lt hfuel)
      rw [List.mapM_cons]
      refine hR.bind (h s x s' (Nat.le_refl _) (by simp) read) fun y => ?_
      -- The further items stand in a shorter text, so what is known up to `s` holds for them.
      have hlength : (skipGap s'').length ≤ s.length := by
        have hread := hvalue read
        have hcomma := length_lt_of_skipGap comma
        have hskip := length_skipGap_le s''
        omega
      have htail := ih (fun t x r ht hx => h t x r (Nat.le_trans ht hlength) (by simp [hx]))
        (Nat.le_of_succ_le_succ hfuel)
      simp only [comma]
      exact hR.bind htail fun ys => hR.ok _ (y :: ys)

theorem readArray (hR : Comparison @R) {s rest : Source} {xs : List α}
    (hread : Json.readArray value s = .ok (xs, rest)) (hvalue : Shrinks value)
    (h : ∀ t x r, t.length ≤ s.length → x ∈ xs → value t = .ok (x, r) → R r (f x) (item t)) :
    R rest (xs.mapM f) (Json.readArray item s) := by
  unfold Json.readArray at hread ⊢
  split at hread
  · cases hread
  · next hclose =>
      cases hread
      exact hR.ok _ []
  · next hempty hclose =>
      obtain ⟨hitems, hfuel⟩ := items_of_readItems hread
      exact hR.items hitems hvalue
        (fun t x r ht => h t x r (Nat.le_trans ht (length_skipGap_le s))) hfuel

/-- What holds of each member that is read elsewhere and decoded into a state holds of all of
them. -/
theorem entries (hR : Comparison @R) {s rest : Source} {es : List (String × α)}
    (hentries : Entries value s es rest) (hvalue : Shrinks value)
    (hname : ∀ t k r, readString t = .ok (k, r) → name t = .ok (key k, r))
    (h : ∀ x t k v r, t.length ≤ s.length → (k, v) ∈ es → expectColon t >>= value = .ok (v, r) →
      R r (step x (k, v)) (member x (key k) t)) {fuel : Nat} (hfuel : es.length ≤ fuel) (x : σ) :
    R rest (es.foldlM step x) (readMembers name member fuel x s) := by
  induction hentries generalizing fuel x with
  | @last s s' s'' rest k v hk read close =>
      obtain ⟨fuel, rfl⟩ := Nat.exists_eq_add_one_of_ne_zero (Nat.ne_zero_of_lt hfuel)
      have hs' := shrinks_readString hk
      rw [List.foldlM_cons]
      simp only [readMembers, hname s k s' hk]
      refine hR.bind (h x s' k v s'' hs' (by simp) read) fun y => ?_
      simp only [close]
      exact hR.ok _ y
  | @comma s s' s'' more next rest k v es hk read comma quote tail ih =>
      obtain ⟨fuel, rfl⟩ := Nat.exists_eq_add_one_of_ne_zero (Nat.ne_zero_of_lt hfuel)
      have hs' := shrinks_readString hk
      have hlength : next.length ≤ s.length := by
        have hread := length_member_lt hvalue read
        have hcomma := length_lt_of_skipGap comma
        have hquote := length_lt_of_skipGap quote
        omega
      rw [List.foldlM_cons]
      simp only [readMembers, hname s k s' hk]
      refine hR.bind (h x s' k v s'' hs' (by simp) read) fun y => ?_
      simp only [comma, quote]
      exact ih (fun x t k v r ht hv => h x t k v r (Nat.le_trans ht hlength) (by simp [hv]))
        (Nat.le_of_succ_le_succ hfuel) y

theorem readObject (hR : Comparison @R) {s rest : Source} {es : List (String × α)}
    (hread : readEntries value s = .ok (es, rest)) (hvalue : Shrinks value)
    (hname : ∀ t k r, readString t = .ok (k, r) → name t = .ok (key k, r))
    (h : ∀ x t k v r, t.length ≤ s.length → (k, v) ∈ es → expectColon t >>= value = .ok (v, r) →
      R r (step x (k, v)) (member x (key k) t)) (x : σ) :
    R rest (es.foldlM step x) (Json.readObject name member x s) := by
  obtain ⟨⟨acc, rest'⟩, hobject, hes⟩ := bind_eq_ok_iff.mp hread
  cases hes
  unfold Json.readObject at hobject ⊢
  split at hobject
  · cases hobject
  · cases hobject
    exact hR.ok _ x
  · next hquote =>
      obtain ⟨es, hentries, rfl, hfuel⟩ := entries_of_readMembers hobject
      simp only [List.append_nil, List.reverse_reverse] at h ⊢
      have hlength := Nat.le_of_lt (length_lt_of_skipGap hquote)
      exact hR.entries hentries hvalue hname
        (fun x t k v r ht => h x t k v r (Nat.le_trans ht hlength)) hfuel x
  · cases hobject

end Comparison

/-- An array is read elsewhere as it is decoded item by item. -/
theorem accords_readArray {s rest : Source} {xs : List α}
    (hread : readArray value s = .ok (xs, rest)) (hvalue : Shrinks value)
    (h : ItemsAccord value f item xs s.length) :
    Accords rest (xs.mapM f) (readArray item s) :=
  Accords.comparison.readArray hread hvalue h

/-- An object is read elsewhere as it is decoded member by member. -/
theorem accords_readObject {s rest : Source} {es : List (String × α)}
    (hread : readEntries value s = .ok (es, rest)) (hvalue : Shrinks value)
    (hname : ∀ t k r, readString t = .ok (k, r) → name t = .ok (key k, r))
    (h : MembersAccord value step key member es s.length) (x : σ) :
    Accords rest (es.foldlM step x) (readObject name member x s) :=
  Accords.comparison.readObject hread hvalue hname h x

end Loops

end MutationInput.Json
