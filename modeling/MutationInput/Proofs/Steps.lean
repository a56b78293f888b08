import Mathlib.Data.List.Forall2

/-!
# Steps that may fail, one after the other

When a sequence of steps succeeds, with which result, and at which step it fails.
-/
namespace MutationInput

variable {ε α β : Type}

theorem bind_eq_ok_iff {x : Except ε α} {f : α → Except ε β} {b : β} :
    x >>= f = .ok b ↔ ∃ a, x = .ok a ∧ f a = .ok b := by
  cases x with
  | error e =>
      constructor
      · intro h
        cases h
      · rintro ⟨_, h, -⟩
        cases h
  | ok a =>
      constructor
      · intro h
        exact ⟨a, rfl, h⟩
      · rintro ⟨_, h, hb⟩
        cases h
        exact hb

/-- The first step fails, or it succeeds and what follows fails. -/
theorem bind_eq_error_iff {x : Except ε α} {f : α → Except ε β} {e : ε} :
    x >>= f = .error e ↔ x = .error e ∨ ∃ a, x = .ok a ∧ f a = .error e := by
  cases x with
  | error e' =>
      constructor
      · intro h
        exact .inl (congrArg Except.error (Except.error.inj h))
      · rintro (h | ⟨_, h, -⟩)
        · exact congrArg Except.error (Except.error.inj h)
        · cases h
  | ok a =>
      constructor
      · intro h
        exact .inr ⟨a, rfl, h⟩
      · rintro (h | ⟨_, h, he⟩)
        · cases h
        · cases h
          exact he

/-- A last step that cannot fail does not matter to how the steps fail. -/
theorem bind_pure_eq_error_iff {x : Except ε α} {f : α → β} {e : ε} :
    (x >>= fun a => pure (f a)) = .error e ↔ x = .error e := by
  cases x with
  | error e' => exact ⟨fun h => congrArg Except.error (Except.error.inj h),
      fun h => congrArg Except.error (Except.error.inj h)⟩
  | ok a =>
      constructor
      · intro h
        cases h
      · intro h
        cases h

/-- A check in front of a step. -/
theorem ite_error_eq_ok_iff {c : Prop} [Decidable c] {e : ε} {x : Except ε α} {a : α} :
    (if c then .error e else x) = .ok a ↔ ¬c ∧ x = .ok a := by
  split <;> simp [*]

theorem exists_eq_ok_iff {x : Except ε α} : (∃ a, x = .ok a) ↔ ∀ e, x ≠ .error e := by
  cases x <;> simp

theorem toOption_eq_some_iff {x : Except ε α} {a : α} : x.toOption = some a ↔ x = .ok a := by
  cases x <;> simp [Except.toOption]

theorem toBool_eq_true_iff {x : Except ε α} : x.toBool = true ↔ ∃ a, x = .ok a := by
  cases x <;> simp [Except.toBool]

theorem map_eq_error_iff {x : Except ε α} {f : α → β} {e : ε} :
    x.map f = .error e ↔ x = .error e := by
  cases x <;> simp [Except.map]

theorem mapError_eq_ok_iff {ε' : Type} {x : Except ε α} {f : ε → ε'} {a : α} :
    x.mapError f = .ok a ↔ x = .ok a := by
  cases x <;> simp [Except.mapError]

theorem mapError_eq_error_iff {ε' : Type} {x : Except ε α} {f : ε → ε'} {e' : ε'} :
    x.mapError f = .error e' ↔ ∃ e, x = .error e ∧ f e = e' := by
  cases x <;> simp [Except.mapError]

theorem map_eq_ok_iff {x : Except ε α} {f : α → β} {b : β} :
    x.map f = .ok b ↔ ∃ a, x = .ok a ∧ f a = b := by
  cases x with
  | error e =>
      constructor
      · intro h
        cases h
      · rintro ⟨_, h, -⟩
        cases h
  | ok a =>
      constructor
      · intro h
        exact ⟨a, rfl, Except.ok.inj h⟩
      · rintro ⟨_, h, rfl⟩
        cases h
        rfl

/-- A traversal succeeds if each of its steps does, and gives their results in order. -/
theorem mapM_eq_ok_iff {f : α → Except ε β} {xs : List α} {ys : List β} :
    xs.mapM f = .ok ys ↔ List.Forall₂ (fun x y => f x = .ok y) xs ys := by
  induction xs generalizing ys with
  | nil =>
      rw [List.mapM_nil, List.forall₂_nil_left_iff]
      exact ⟨fun h => (Except.ok.inj h).symm, fun h => congrArg Except.ok h.symm⟩
  | cons x xs ih =>
      rw [List.mapM_cons, bind_eq_ok_iff, List.forall₂_cons_left_iff]
      simp only [bind_eq_ok_iff, ih]
      constructor
      · rintro ⟨y, hy, rest, hrest, h⟩
        exact ⟨y, rest, hy, hrest, (Except.ok.inj h).symm⟩
      · rintro ⟨y, rest, hy, hrest, rfl⟩
        exact ⟨y, hy, rest, hrest, rfl⟩

theorem exists_mapM_eq_ok {f : α → Except ε β} {xs : List α} (h : ∀ x ∈ xs, ∃ y, f x = .ok y) :
    ∃ ys, xs.mapM f = .ok ys := by
  induction xs with
  | nil => exact ⟨[], rfl⟩
  | cons x xs ih =>
      obtain ⟨y, hy⟩ := h x (by simp)
      obtain ⟨ys, hys⟩ := ih fun x' hx' => h x' (by simp [hx'])
      exact ⟨y :: ys, mapM_eq_ok_iff.mpr (.cons hy (mapM_eq_ok_iff.mp hys))⟩

/-- A step of a traversal that succeeds has succeeded. -/
theorem exists_of_mem_forall₂ {f : α → Except ε β} {xs : List α} {ys : List β} {x : α}
    (h : List.Forall₂ (fun x y => f x = .ok y) xs ys) (hx : x ∈ xs) : ∃ y, f x = .ok y := by
  induction h with
  | nil => cases hx
  | cons hy _ ih =>
      rcases List.mem_cons.mp hx with rfl | hx
      · exact ⟨_, hy⟩
      · exact ih hx

theorem mapM_cons_eq_error_iff {f : α → Except ε β} {x : α} {xs : List α} {e : ε} :
    (x :: xs).mapM f = .error e ↔
      f x = .error e ∨ (∃ y, f x = .ok y) ∧ xs.mapM f = .error e := by
  rw [List.mapM_cons, bind_eq_error_iff]
  simp only [bind_pure_eq_error_iff, exists_and_right]

theorem mapM_append_eq_error_iff {f : α → Except ε β} {xs ys : List α} {e : ε} :
    (xs ++ ys).mapM f = .error e ↔
      xs.mapM f = .error e ∨ (∃ zs, xs.mapM f = .ok zs) ∧ ys.mapM f = .error e := by
  rw [List.mapM_append, bind_eq_error_iff]
  simp only [bind_pure_eq_error_iff, exists_and_right]

/-- A traversal fails at the first of its steps that fails. -/
theorem mapM_eq_error_iff {f : α → Except ε β} {xs : List α} {e : ε} :
    xs.mapM f = .error e ↔ ∃ before x after, xs = before ++ x :: after ∧
      (∀ y ∈ before, ∃ z, f y = .ok z) ∧ f x = .error e := by
  induction xs with
  | nil =>
      constructor
      · intro h
        cases h
      · rintro ⟨before, x, after, h, -⟩
        simp at h
  | cons x xs ih =>
      rw [mapM_cons_eq_error_iff, ih]
      constructor
      · rintro (hx | ⟨hx, before, x', after, rfl, hbefore, hx'⟩)
        · exact ⟨[], x, xs, rfl, by simp, hx⟩
        · exact ⟨x :: before, x', after, rfl, List.forall_mem_cons.mpr ⟨hx, hbefore⟩, hx'⟩
      · rintro ⟨before, x', after, heq, hbefore, hx'⟩
        cases before with
        | nil =>
            cases heq
            exact .inl hx'
        | cons z before =>
            cases heq
            obtain ⟨hx, hbefore⟩ := List.forall_mem_cons.mp hbefore
            exact .inr ⟨hx, before, x', after, rfl, hbefore, hx'⟩

/-- If every item fails as the traversal of its parts does, so does the traversal of the items. -/
theorem mapM_eq_error_iff_flatMap {γ δ : Type} {f : α → Except ε β} {g : γ → Except ε δ}
    {parts : α → List γ} {xs : List α}
    (h : ∀ x ∈ xs, ∀ e, f x = .error e ↔ (parts x).mapM g = .error e) (e : ε) :
    xs.mapM f = .error e ↔ (xs.flatMap parts).mapM g = .error e := by
  induction xs with
  | nil => simp [pure, Except.pure]
  | cons x xs ih =>
      obtain ⟨hx, hxs⟩ := List.forall_mem_cons.mp h
      have hok : (∃ y, f x = .ok y) ↔ ∃ zs, (parts x).mapM g = .ok zs := by
        simp only [exists_eq_ok_iff, ne_eq, hx]
      rw [mapM_cons_eq_error_iff, List.flatMap_cons, mapM_append_eq_error_iff, hx, hok, ih hxs]

/-! ## Steps over a state -/

section Folds

variable {σ ε' : Type} {f : σ → α → Except ε σ}

/-- Where the state does not decide whether a step fails, the first step that fails decides how the
steps fail. -/
theorem foldlM_eq_error_iff {P : α → ε → Prop} (hf : ∀ s x e, f s x = .error e ↔ P x e)
    {xs : List α} {s : σ} {e : ε} :
    xs.foldlM f s = .error e ↔ ∃ before x after, xs = before ++ x :: after ∧
      (∀ y ∈ before, ∀ e', ¬P y e') ∧ P x e := by
  induction xs generalizing s with
  | nil =>
      constructor
      · intro h
        cases h
      · rintro ⟨before, x, after, h, -⟩
        simp at h
  | cons x xs ih =>
      rw [List.foldlM_cons, bind_eq_error_iff, hf]
      constructor
      · rintro (hx | ⟨s', hs', hrest⟩)
        · exact ⟨[], x, xs, rfl, by simp, hx⟩
        · obtain ⟨before, y, after, rfl, hbefore, hy⟩ := ih.mp hrest
          refine ⟨x :: before, y, after, rfl, ?_, hy⟩
          rw [List.forall_mem_cons]
          refine ⟨fun e' hbad => ?_, hbefore⟩
          cases hs'.symm.trans ((hf s x e').mpr hbad)
      · rintro ⟨before, y, after, heq, hbefore, hy⟩
        cases before with
        | nil =>
            cases heq
            exact .inl hy
        | cons z before =>
            cases heq
            obtain ⟨hx, hbefore⟩ := List.forall_mem_cons.mp hbefore
            cases hs' : f s x with
            | error e' => exact absurd ((hf s x e').mp hs') (hx e')
            | ok s' => exact .inr ⟨s', rfl, ih.mpr ⟨before, y, after, rfl, hbefore, hy⟩⟩

/-- Where the state does not decide whether a step fails, the steps succeed if none is one that
fails. -/
theorem exists_foldlM_eq_ok_iff {P : α → ε → Prop} (hf : ∀ s x e, f s x = .error e ↔ P x e)
    {xs : List α} {s : σ} : (∃ s', xs.foldlM f s = .ok s') ↔ ∀ x ∈ xs, ∀ e, ¬P x e := by
  induction xs generalizing s with
  | nil => simp [pure, Except.pure]
  | cons x xs ih =>
      rw [List.foldlM_cons, List.forall_mem_cons]
      cases hs' : f s x with
      | error e =>
          have hx : P x e := (hf s x e).mp hs'
          constructor
          · rintro ⟨_, h⟩
            cases h
          · rintro ⟨hnone, -⟩
            exact absurd hx (hnone e)
      | ok s' =>
          have hx : ∀ e, ¬P x e := by
            intro e he
            cases hs'.symm.trans ((hf s x e).mpr he)
          have hrest : (∃ s'', xs.foldlM f s' = .ok s'') ↔ _ := ih
          constructor
          · exact fun h => ⟨hx, hrest.mp h⟩
          · exact fun h => hrest.mpr h.2

end Folds

end MutationInput
