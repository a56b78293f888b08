import MutationInput.Tree.Parser

/-!
# What a parser takes from a text

A parser reads characters with their locations, and where a text stands only decides the locations
in the result. `Takes p text Q rest` says that `p` reads from `text` up to `rest`, wherever the text
stands, and that its result satisfies `Q`; `Refuses p text` that it fails there. Each way of
building a parser from others has its rule. A repetition is followed item by item, `TakesMany`,
with the number of items it may still take bounded by the length of the text.
-/
namespace MutationInput.Tree

/-- The characters of a located text. -/
def characters (s : Located) : List Char :=
  s.map Prod.fst

@[simp] theorem characters_nil : characters [] = [] := rfl

@[simp] theorem characters_cons (c : Char) (l : Location) (s : Located) :
    characters ((c, l) :: s) = c :: characters s := rfl

theorem characters_eq_cons_iff {s : Located} {c : Char} {text : List Char} :
    characters s = c :: text ↔ ∃ l s', s = (c, l) :: s' ∧ characters s' = text := by
  cases s with
  | nil => simp
  | cons e s =>
      obtain ⟨d, l⟩ := e
      constructor
      · intro h
        obtain ⟨rfl, htext⟩ := List.cons.inj h
        exact ⟨l, s, rfl, htext⟩
      · rintro ⟨l', s', heq, rfl⟩
        cases heq
        rfl

@[simp] theorem length_characters (s : Located) : (characters s).length = s.length :=
  List.length_map _

theorem characters_locateFrom (l : Location) (text : List Char) :
    characters (locateFrom l text) = text := by
  induction text generalizing l with
  | nil => rfl
  | cons c text ih => rw [locateFrom, characters_cons, ih]

@[simp] theorem characters_locate (s : String) : characters (locate s) = s.toList :=
  characters_locateFrom .start s.toList

namespace Parser

variable {α β : Type} {p q : Parser α} {Q : α → Prop} {R : β → Prop} {text mid rest : List Char}

/-- The parser reads from `text` up to `rest`, and its result satisfies `Q`. -/
def Takes (p : Parser α) (text : List Char) (Q : α → Prop) (rest : List Char) : Prop :=
  ∀ s, characters s = text → ∃ x s', p s = some (x, s') ∧ characters s' = rest ∧ Q x

/-- The parser fails at `text`. -/
def Refuses (p : Parser α) (text : List Char) : Prop :=
  ∀ s, characters s = text → p s = none

/-! ## Sequences -/

theorem takes_pure {x : α} (h : Q x) : Takes (pure x) text Q text :=
  fun s hs => ⟨x, s, rfl, hs, h⟩

theorem Takes.mono {Q' : α → Prop} (h : Takes p text Q rest) (hQ : ∀ x, Q x → Q' x) :
    Takes p text Q' rest := by
  intro s hs
  obtain ⟨x, s', hp, hs', hx⟩ := h s hs
  exact ⟨x, s', hp, hs', hQ x hx⟩

theorem bind_of_eq_some {f : α → Parser β} {s s' : Located} {x : α} (h : p s = some (x, s')) :
    (p >>= f) s = f x s' := by
  simp only [Bind.bind, h]

theorem bind_of_eq_none {s : Located} (h : p s = none) (f : α → Parser β) :
    (p >>= f) s = none := by
  simp only [Bind.bind, h]

theorem Takes.bind {f : α → Parser β} (h : Takes p text Q mid)
    (hf : ∀ x, Q x → Takes (f x) mid R rest) : Takes (p >>= f) text R rest := by
  intro s hs
  obtain ⟨x, s', hp, hs', hx⟩ := h s hs
  obtain ⟨y, s'', hfx, hs'', hy⟩ := hf x hx s' hs'
  exact ⟨y, s'', (bind_of_eq_some hp).trans hfx, hs'', hy⟩

theorem Refuses.bind (h : Refuses p text) (f : α → Parser β) : Refuses (p >>= f) text :=
  fun s hs => bind_of_eq_none (h s hs) f

/-- A sequence fails if what follows its first part does. -/
theorem Takes.refuses_bind {f : α → Parser β} (h : Takes p text Q mid)
    (hf : ∀ x, Q x → Refuses (f x) mid) : Refuses (p >>= f) text := by
  intro s hs
  obtain ⟨x, s', hp, hs', hx⟩ := h s hs
  exact (bind_of_eq_some hp).trans (hf x hx s' hs')

/-! ## Choices -/

theorem orElse_of_eq_some {s : Located} {r : α × Located} (h : p s = some r) (q : Parser α) :
    (p <|> q) s = some r := by
  simp only [HOrElse.hOrElse, OrElse.orElse, orElse, h]

theorem orElse_of_eq_none {s : Located} (h : p s = none) (q : Parser α) : (p <|> q) s = q s := by
  simp only [HOrElse.hOrElse, OrElse.orElse, orElse, h]

theorem Takes.orElse (h : Takes p text Q rest) (q : Parser α) : Takes (p <|> q) text Q rest := by
  intro s hs
  obtain ⟨x, s', hp, hs', hx⟩ := h s hs
  exact ⟨x, s', orElse_of_eq_some hp q, hs', hx⟩

theorem Refuses.orElse_takes (h : Refuses p text) (hq : Takes q text Q rest) :
    Takes (p <|> q) text Q rest := by
  intro s hs
  obtain ⟨x, s', hqs, hs', hx⟩ := hq s hs
  exact ⟨x, s', (orElse_of_eq_none (h s hs) q).trans hqs, hs', hx⟩

theorem Refuses.orElse (h : Refuses p text) (hq : Refuses q text) : Refuses (p <|> q) text :=
  fun s hs => (orElse_of_eq_none (h s hs) q).trans (hq s hs)

theorem Takes.optional (h : Takes p text Q rest) :
    Takes (optional p) text (fun x => ∃ y, x = some y ∧ Q y) rest := by
  intro s hs
  obtain ⟨x, s', hp, hs', hx⟩ := h s hs
  exact ⟨some x, s', by simp only [Parser.optional, hp], hs', x, rfl, hx⟩

theorem Refuses.optional (h : Refuses p text) : Takes (optional p) text (· = none) text := by
  intro s hs
  exact ⟨none, s, by simp only [Parser.optional, h s hs], hs, rfl⟩

theorem Refuses.notNext (h : Refuses p text) : Takes (notNext p) text (fun _ => True) text := by
  intro s hs
  exact ⟨(), s, by simp only [Parser.notNext, h s hs], hs, trivial⟩

/-! ## Repetitions -/

/-- The parser reads items from `text` up to `rest`, where it fails, if it may take as many items as
the text has characters. -/
def TakesMany (p : Parser α) (text : List Char) (Q : List α → Prop) (rest : List Char) : Prop :=
  ∀ n s, characters s = text → text.length ≤ n →
    ∃ xs s', manyUpTo p n s = (xs, s') ∧ characters s' = rest ∧ Q xs

theorem Refuses.takesMany (h : Refuses p text) : TakesMany p text (· = []) text := by
  intro n s hs _
  refine ⟨[], s, ?_, hs, rfl⟩
  cases n with
  | zero => rfl
  | succ n => simp only [manyUpTo, h s hs]

theorem TakesMany.mono {Q Q' : List α → Prop} (h : TakesMany p text Q rest)
    (hQ : ∀ xs, Q xs → Q' xs) : TakesMany p text Q' rest := by
  intro n s hs hn
  obtain ⟨xs, s', hmany, hs', hxs⟩ := h n s hs hn
  exact ⟨xs, s', hmany, hs', hQ xs hxs⟩

/-- One item is followed by the others; it has at least one character. -/
theorem Takes.takesMany {Q' : List α → Prop} (h : Takes p text Q mid)
    (hlt : mid.length < text.length) (hmore : TakesMany p mid Q' rest) :
    TakesMany p text (fun xs => ∃ y ys, xs = y :: ys ∧ Q y ∧ Q' ys) rest := by
  intro n s hs hn
  have hpos : n ≠ 0 := Nat.ne_zero_of_lt (Nat.lt_of_lt_of_le hlt hn)
  obtain ⟨n, rfl⟩ := Nat.exists_eq_add_one_of_ne_zero hpos
  obtain ⟨x, s', hp, hs', hx⟩ := h s hs
  obtain ⟨xs, s'', hmany, hs'', hxs⟩ := hmore n s' hs' (by omega)
  exact ⟨x :: xs, s'', by simp only [manyUpTo, hp, hmany], hs'', x, xs, rfl, hx, hxs⟩

theorem TakesMany.many {Q : List α → Prop} (h : TakesMany p text Q rest) :
    Takes (many p) text Q rest := by
  intro s hs
  obtain ⟨xs, s', hmany, hs', hxs⟩ := h s.length s hs (by simp [← hs])
  exact ⟨xs, s', by rw [Parser.many, hmany], hs', hxs⟩

theorem TakesMany.many1 {Q' : List α → Prop} (h : Takes p text Q mid)
    (hmore : TakesMany p mid Q' rest) :
    Takes (many1 p) text (fun xs => ∃ y ys, xs = y :: ys ∧ Q y ∧ Q' ys) rest :=
  h.bind fun x hx => hmore.many.bind fun xs hxs => takes_pure ⟨x, xs, rfl, hx, hxs⟩

/-! ## Characters -/

/-- The text does not go on with a character of a class. -/
def Stops (p : Char → Bool) (text : List Char) : Prop :=
  ∀ c ∈ text.head?, p c = false

@[simp] theorem stops_nil (p : Char → Bool) : Stops p [] := by
  intro c hc
  cases hc

@[simp] theorem stops_cons {p : Char → Bool} {c : Char} {text : List Char} :
    Stops p (c :: text) ↔ p c = false := by
  simp [Stops]

theorem takes_satisfy {p : Char → Bool} {c : Char} (h : p c = true) :
    Takes (satisfy p) (c :: rest) (· = c) rest := by
  intro s hs
  obtain ⟨l, s', rfl, hs'⟩ := characters_eq_cons_iff.mp hs
  exact ⟨c, s', if_pos h, hs', rfl⟩

theorem refuses_satisfy {p : Char → Bool} (h : Stops p text) : Refuses (satisfy p) text := by
  intro s hs
  cases s with
  | nil => rfl
  | cons e s =>
      have hc : p e.1 = false := by
        rw [← hs] at h
        exact stops_cons.mp h
      exact if_neg (by simp [hc])

theorem takes_word (w : List Char) : Takes (word w) (w ++ rest) (fun _ => True) rest := by
  induction w with
  | nil => exact fun s hs => ⟨(), s, rfl, hs, trivial⟩
  | cons c w ih =>
      intro s hs
      obtain ⟨l, s', rfl, hs'⟩ := characters_eq_cons_iff.mp hs
      obtain ⟨x, s'', hw, hs'', -⟩ := ih s' hs'
      refine ⟨x, s'', ?_, hs'', trivial⟩
      rw [word, if_pos rfl]
      exact hw

/-- A word is not there if the text begins with another character. -/
theorem refuses_word {c : Char} {w : List Char} (h : Stops (· == c) text) :
    Refuses (word (c :: w)) text := by
  intro s hs
  cases s with
  | nil => rfl
  | cons e s =>
      have hne : e.1 ≠ c := by
        rw [← hs] at h
        simpa using stops_cons.mp h
      exact if_neg (Ne.symm hne)

theorem span_of_all {p : Char → Bool} {cs : List Char} (hcs : ∀ c ∈ cs, p c = true)
    (hstop : Stops p rest) {s : Located} (hs : characters s = cs ++ rest) :
    ∃ s', span p s = (cs, s') ∧ characters s' = rest := by
  induction cs generalizing s with
  | nil =>
      cases s with
      | nil => exact ⟨[], rfl, hs⟩
      | cons e s =>
          rw [List.nil_append] at hs
          have hc : p e.1 = false := by
            rw [← hs] at hstop
            exact stops_cons.mp hstop
          exact ⟨e :: s, if_neg (by simp [hc]), hs⟩
  | cons c cs ih =>
      obtain ⟨l, s', rfl, hs'⟩ := characters_eq_cons_iff.mp hs
      obtain ⟨s'', hspan, hs''⟩ := ih (fun d hd => hcs d (List.mem_cons_of_mem c hd)) hs'
      exact ⟨s'', by simp [span, hcs c List.mem_cons_self, hspan], hs''⟩

theorem takes_takeMany {p : Char → Bool} {cs : List Char} (hcs : ∀ c ∈ cs, p c = true)
    (hstop : Stops p rest) : Takes (takeMany p) (cs ++ rest) (· = cs) rest := by
  intro s hs
  obtain ⟨s', hspan, hs'⟩ := span_of_all hcs hstop hs
  exact ⟨cs, s', by rw [takeMany, hspan], hs', rfl⟩

/-- There is a location where there is a character. -/
theorem takes_here {c : Char} : Takes here (c :: text) (fun _ => True) (c :: text) := by
  intro s hs
  obtain ⟨l, s', rfl, hs'⟩ := characters_eq_cons_iff.mp hs
  exact ⟨l, _, rfl, hs, trivial⟩

theorem refuses_here : Refuses here [] := by
  intro s hs
  obtain rfl : s = [] := by simpa [characters] using hs
  rfl

theorem takes_atEnd : Takes atEnd [] (fun _ => True) [] := by
  intro s hs
  obtain rfl : s = [] := by simpa [characters] using hs
  exact ⟨(), [], rfl, rfl, trivial⟩

end Parser

end MutationInput.Tree
