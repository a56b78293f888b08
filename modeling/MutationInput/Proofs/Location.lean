import MutationInput.Location

/-!
# Locations along a text

Locations count lines, and a carriage return on its own leads back to the first column of its line,
so locations need not increase along a text. They do where every carriage return is followed by a
line feed: `pairwise_precedes_locateFrom`.
-/
namespace MutationInput

theorem Location.le_iff (a b : Location) :
    a.le b = true ↔ a.line < b.line ∨ (a.line = b.line ∧ a.column ≤ b.column) := by
  simp [Location.le]

theorem Location.le_antisymm {a b : Location} (hab : a.le b = true) (hba : b.le a = true) :
    a = b := by
  obtain ⟨_, _⟩ := a
  obtain ⟨_, _⟩ := b
  rw [le_iff] at hab hba
  rw [mk.injEq]
  dsimp only at hab hba
  omega

/-- A location comes before another: by line, then by column. -/
def Location.Precedes (a b : Location) : Prop :=
  a.line < b.line ∨ (a.line = b.line ∧ a.column < b.column)

theorem Location.Precedes.le {a b : Location} (h : a.Precedes b) : a.le b = true :=
  (Location.le_iff a b).mpr (h.imp_right fun h => ⟨h.1, Nat.le_of_lt h.2⟩)

theorem Location.precedes_of_le_of_ne {a b : Location} (h : a.le b = true) (hne : a ≠ b) :
    a.Precedes b := by
  obtain ⟨_, _⟩ := a
  obtain ⟨_, _⟩ := b
  rw [le_iff] at h
  rw [ne_eq, mk.injEq] at hne
  dsimp only [Precedes] at h ⊢
  omega

theorem Location.Precedes.ne {a b : Location} (h : a.Precedes b) : a ≠ b := by
  rintro rfl
  exact h.elim (Nat.lt_irrefl _) fun h => Nat.lt_irrefl _ h.2

/-- Every carriage return of a text is followed by a line feed. -/
def ReturnsFeed : List Char → Prop
  | [] => True
  | c :: text => (c = '\r' → text.head? = some '\n') ∧ ReturnsFeed text

instance decidableReturnsFeed : ∀ text, Decidable (ReturnsFeed text)
  | [] => inferInstanceAs (Decidable True)
  | c :: text =>
    have := decidableReturnsFeed text
    inferInstanceAs (Decidable ((c = '\r' → text.head? = some '\n') ∧ ReturnsFeed text))

/-- A location precedes those that are not before the location after it. Behind a carriage return
they have to be on a later line. -/
theorem Location.precedes_of_after {l l' : Location} {c : Char} (hle : (l.after c).le l' = true)
    (hreturn : c = '\r' → l.line < l'.line) : l.Precedes l' := by
  rw [Location.le_iff] at hle
  by_cases hr : c = '\r'
  · exact .inl (hreturn hr)
  · by_cases hn : c = '\n'
    · simp only [Location.after, if_pos hn] at hle
      exact .inl (by omega)
    · simp only [Location.after, if_neg hn, if_neg hr] at hle
      rcases hle with h | ⟨hline, hcolumn⟩
      · exact .inl h
      · exact .inr ⟨hline, by omega⟩

/-- No character but a line feed stands before the place where a text begins, and it stands on a
later line if the text begins with a line feed. -/
theorem le_of_mem_locateFrom {text : List Char} (h : ReturnsFeed text) {l : Location}
    {e : Char × Location} (he : e ∈ locateFrom l text) (hne : e.1 ≠ '\n') :
    l.le e.2 = true ∧ (text.head? = some '\n' → l.line < e.2.line) := by
  induction text generalizing l with
  | nil => cases he
  | cons c text ih =>
      rcases List.mem_cons.mp he with rfl | he
      · refine ⟨(Location.le_iff l l).mpr (.inr ⟨rfl, Nat.le_refl _⟩), ?_⟩
        intro hhead
        exact absurd (Option.some.inj hhead) hne
      · obtain ⟨hle, hline⟩ := ih h.2 he
        have hprecedes : l.Precedes e.2 := by
          refine Location.precedes_of_after hle ?_
          rintro rfl
          exact hline (h.1 rfl)
        refine ⟨hprecedes.le, ?_⟩
        intro hhead
        cases hhead
        rw [Location.le_iff] at hle
        simp only [Location.after, if_pos] at hle
        omega

/-- A character precedes every later one that is no line feed. -/
theorem pairwise_precedes_locateFrom {text : List Char} (h : ReturnsFeed text) (l : Location) :
    (locateFrom l text).Pairwise fun a b => b.1 ≠ '\n' → a.2.Precedes b.2 := by
  induction text generalizing l with
  | nil => exact .nil
  | cons c text ih =>
      refine .cons ?_ (ih h.2 _)
      intro e he hne
      obtain ⟨hle, hline⟩ := le_of_mem_locateFrom h.2 he hne
      refine Location.precedes_of_after hle ?_
      rintro rfl
      exact hline (h.1 rfl)

end MutationInput
