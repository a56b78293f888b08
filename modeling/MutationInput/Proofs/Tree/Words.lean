import MutationInput.Proofs.Json.Printed
import MutationInput.Proofs.Tree.Takes
import MutationInput.Tree.Grammar

/-!
# Words, names and numbers in a document

A token is read together with the blanks after it, so it has to be known what the text goes on
with: a name ends where no character of a name follows, a number where nothing follows that a
number could go on with, and blanks end at the next token. `takes_keyword`, `takes_name` and
`takes_numeral` read a token that is written out, up to the next one.
-/
namespace MutationInput.Tree

/-! ## What a text begins with -/

namespace Parser

theorem Stops.mono {text : List Char} {p q : Char → Bool} (h : Stops p text)
    (hpq : ∀ c, q c = true → p c = true) : Stops q text := by
  intro c hc
  have hp := h c hc
  by_contra hq
  rw [Bool.not_eq_false] at hq
  simp [hpq c hq] at hp

/-- A number begins with a digit. -/
theorem stops_toDigits {q : Char → Bool} (hq : ∀ c, q c = true → c.isDigit = false) (n : Nat)
    (rest : List Char) : Stops q (Nat.toDigits 10 n ++ rest) := by
  obtain ⟨c, cs, hdigits, hc⟩ := Json.exists_digit_cons n
  rw [hdigits, List.cons_append, stops_cons]
  by_contra hqc
  rw [hq c (by simpa using hqc)] at hc
  cases hc

end Parser

/-- A name: letters, digits and underscores, and no digit at first. -/
def IsName (n : String) : Prop :=
  ∃ c cs, n.toList = c :: cs ∧ (c.isAlpha = true ∨ c = '_') ∧
    ∀ d ∈ cs, d.isAlpha = true ∨ d.isDigit = true ∨ d = '_'

instance (n : String) : Decidable (IsName n) :=
  match h : n.toList with
  | [] => isFalse (by
      rintro ⟨c, cs, hcs, -⟩
      rw [h] at hcs
      cases hcs)
  | c :: cs =>
      decidable_of_iff ((c.isAlpha = true ∨ c = '_') ∧
          cs.all (fun d => d.isAlpha || d.isDigit || d == '_') = true) (by
        simp only [List.all_eq_true, Bool.or_eq_true, beq_iff_eq, or_assoc]
        constructor
        · intro hc
          exact ⟨c, cs, h, hc⟩
        · rintro ⟨c', cs', hcs, hc⟩
          rw [h] at hcs
          cases hcs
          exact hc)

/-- The characters of a name are those with which the grammar begins a name and goes on. -/
theorem IsName.exists_cons {n : String} (hn : IsName n) :
    ∃ c cs, n.toList = c :: cs ∧ Parser.isNameStart c = true ∧
      ∀ d ∈ cs, Parser.isNameChar d = true := by
  obtain ⟨c, cs, hcs, hc, hmore⟩ := hn
  refine ⟨c, cs, hcs, ?_, fun d hd => ?_⟩
  · rcases hc with hc | rfl
    · simp [Parser.isNameStart, hc]
    · rfl
  · rcases hmore d hd with hd | hd | rfl
    · simp [Parser.isNameChar, Parser.isNameStart, hd]
    · simp [Parser.isNameChar, hd]
    · rfl

/-- A name begins with a letter or an underscore. -/
theorem IsName.stops {q : Char → Bool} (hq : ∀ c, q c = true → Parser.isNameStart c = false)
    {n : String} (hn : IsName n) (rest : List Char) : Parser.Stops q (n.toList ++ rest) := by
  obtain ⟨c, cs, hcs, hc, -⟩ := hn.exists_cons
  rw [hcs, List.cons_append, Parser.stops_cons]
  by_contra hqc
  rw [hq c (by simpa using hqc)] at hc
  cases hc

namespace Parser

variable {α : Type} {p : Parser α} {Q : α → Prop} {text rest gap : List Char}

/-! ## Blanks -/

/-- Whether a character begins a blank or a comment. -/
def opensBlank (c : Char) : Bool :=
  isBlank c || c == '#'

/-- What begins a blank or a comment begins neither a name nor a number. -/
theorem notMem_of_opensBlank {c : Char} (h : opensBlank c = true) :
    isNameStart c = false ∧ c.isDigit = false := by
  simp only [opensBlank, isBlank, isTerminator, Bool.or_eq_true, beq_iff_eq] at h
  rcases h with ((((rfl | rfl) | rfl) | rfl) | rfl | rfl) | rfl <;> decide

theorem stops_name {n : String} (hn : IsName n) (rest : List Char) :
    Stops opensBlank (n.toList ++ rest) :=
  hn.stops (fun _ hc => (notMem_of_opensBlank hc).1) rest

theorem stops_number (n : Nat) (rest : List Char) :
    Stops opensBlank (Nat.toDigits 10 n ++ rest) :=
  stops_toDigits (fun _ hc => (notMem_of_opensBlank hc).2) n rest

/-- A run of blanks, after which a token begins. -/
structure IsGap (gap rest : List Char) : Prop where
  blanks : ∀ c ∈ gap, isBlank c = true
  token : Stops opensBlank rest

theorem isGap_nil (h : Stops opensBlank rest) : IsGap [] rest :=
  ⟨by simp, h⟩

theorem isGap_space (h : Stops opensBlank rest) : IsGap [' '] rest :=
  ⟨List.forall_mem_singleton.mpr rfl, h⟩

/-- A comma is a blank. -/
theorem isGap_comma (h : Stops opensBlank rest) : IsGap [',', ' '] rest :=
  ⟨List.forall_mem_cons.mpr ⟨rfl, List.forall_mem_singleton.mpr rfl⟩, h⟩

theorem takes_blank (h : IsGap gap rest) : Takes blank (gap ++ rest) (fun _ => True) rest := by
  intro s hs
  refine ⟨(), skipBlank s, rfl, ?_, trivial⟩
  obtain ⟨hblanks, htoken⟩ := h
  induction gap generalizing s with
  | nil =>
      rw [List.nil_append] at hs
      subst hs
      cases s with
      | nil =>
          rw [skipBlank]
      | cons e s =>
          have he := stops_cons.mp htoken
          simp only [opensBlank, Bool.or_eq_false_iff, beq_eq_false_iff_ne] at he
          rw [skipBlank, if_neg (by simp [he.1]), if_neg he.2]
  | cons c gap ih =>
      obtain ⟨l, s', rfl, hs'⟩ := characters_eq_cons_iff.mp hs
      rw [skipBlank, if_pos (hblanks c List.mem_cons_self)]
      exact ih s' hs' fun d hd => hblanks d (List.mem_cons_of_mem c hd)

theorem Takes.token (h : Takes p text Q (gap ++ rest)) (hgap : IsGap gap rest) :
    Takes (token p) text Q rest :=
  h.bind fun _ hx => (takes_blank hgap).bind fun _ _ => takes_pure hx

theorem Refuses.token (h : Refuses p text) : Refuses (token p) text :=
  h.bind _

theorem takes_keyword {w : String} {cs : List Char} (hw : w.toList = cs) (hgap : IsGap gap rest) :
    Takes (keyword w) (cs ++ (gap ++ rest)) (fun _ => True) rest := by
  rw [keyword, hw]
  exact (takes_word cs).token hgap

/-- A word is not there where another character stands than its first. -/
theorem refuses_keyword {w : String} (c : Char) (hw : w.toList.head? = some c)
    (h : Stops (· == c) text) : Refuses (keyword w) text := by
  obtain ⟨cs, hcs⟩ := List.head?_eq_some_iff.mp hw
  rw [keyword, hcs]
  exact (refuses_word h).token

/-! ## Names -/

theorem takes_bareName {n : String} (h : IsName n) (hstop : Stops isNameChar rest) :
    Takes bareName (n.toList ++ rest) (· = n) rest := by
  obtain ⟨c, cs, hn, hc, hcs⟩ := h.exists_cons
  rw [hn]
  refine (takes_satisfy hc).bind fun d hd => (takes_takeMany hcs hstop).bind fun ds hds => ?_
  subst hd hds
  refine takes_pure ?_
  rw [← hn, String.ofList_toList]

theorem takes_name {n : String} (h : IsName n) (hstop : Stops isNameChar (gap ++ rest))
    (hgap : IsGap gap rest) : Takes name (n.toList ++ (gap ++ rest)) (· = n) rest :=
  (takes_bareName h hstop).token hgap

theorem refuses_name (h : Stops isNameStart text) : Refuses name text :=
  ((refuses_satisfy h).bind _).token

/-! ## Numbers -/

/-- Whether a number could go on with a character, or the character spoil it. -/
def extendsNumber (c : Char) : Bool :=
  isNameStart c || c.isDigit || c == '.'

theorem takes_wholeDigits (n : Nat) (hstop : Stops Char.isDigit rest) :
    Takes wholeDigits (Nat.toDigits 10 n ++ rest) (· = Nat.toDigits 10 n) rest := by
  rcases Nat.eq_zero_or_pos n with rfl | hn
  · refine Takes.orElse ((takes_satisfy (by decide)).bind fun c hc => ?_) _
    subst hc
    exact takes_pure rfl
  · obtain ⟨c, cs, hdigits, -⟩ := Json.exists_digit_cons n
    have hall : ∀ d ∈ c :: cs, d.isDigit = true := by
      intro d hd
      rw [← hdigits] at hd
      exact Nat.isDigit_of_mem_toDigits (by decide) (by decide) hd
    have hzero : c ≠ '0' := by
      have hhead := Json.head?_toDigits_ne hn
      rw [hdigits] at hhead
      simpa using hhead
    rw [hdigits, List.cons_append]
    refine Refuses.orElse_takes ((refuses_satisfy (stops_cons.mpr ?_)).bind _) ?_
    · simpa using hzero
    · have hfirst : (c.isDigit && c != '0') = true := by
        simp [hall c List.mem_cons_self, hzero]
      have hmore := takes_takeMany (fun d hd => hall d (List.mem_cons_of_mem c hd)) hstop
      refine (takes_satisfy hfirst).bind fun d hd => hmore.bind fun ds hds => ?_
      subst hd hds
      exact takes_pure rfl

/-- A whole number is read where nothing follows that a number could go on with. -/
theorem takes_numeral (n : Nat) (hstop : Stops extendsNumber rest) :
    Takes numeral (Nat.toDigits 10 n ++ rest) (· = ⟨false, Nat.toDigits 10 n, none, none⟩)
      rest := by
  have hdigit : Stops Char.isDigit rest := hstop.mono fun c hc => by simp [extendsNumber, hc]
  have hstart : Stops isNameStart rest := hstop.mono fun c hc => by simp [extendsNumber, hc]
  have hpoint : Stops (· == '.') rest := hstop.mono fun c hc => by simp_all [extendsNumber]
  have hmark : Stops (fun c => c == 'e' || c == 'E') rest := hstart.mono fun c hc => by
    simp only [Bool.or_eq_true, beq_iff_eq] at hc
    rcases hc with rfl | rfl <;> decide
  have hsign : Stops (· == '-') (Nat.toDigits 10 n ++ rest) :=
    stops_toDigits (fun c hc => by rw [eq_of_beq hc]; decide) n rest
  have hminus : Takes minus (Nat.toDigits 10 n ++ rest) (· = false) (Nat.toDigits 10 n ++ rest) :=
    (refuses_word hsign).optional.bind fun x hx => takes_pure (by rw [hx]; rfl)
  have hfraction : Refuses fraction rest := (refuses_word hpoint).bind _
  have hexponent : Refuses exponent rest := (refuses_satisfy hmark).bind _
  refine hminus.bind fun negative hnegative => (takes_wholeDigits n hdigit).bind fun ds hds =>
    hfraction.optional.bind fun x hx => hexponent.optional.bind fun y hy =>
      (refuses_satisfy hstart).notNext.bind fun _ _ => ?_
  subst hnegative hds hx hy
  exact takes_pure rfl

/-- Nothing but a digit or a minus begins a number. -/
theorem refuses_numeral (hdigit : Stops Char.isDigit text) (hminus : Stops (· == '-') text) :
    Refuses numeral text := by
  have hsign : Takes minus text (· = false) text :=
    (refuses_word hminus).optional.bind fun x hx => takes_pure (by rw [hx]; rfl)
  have hwhole : Refuses wholeDigits text := by
    refine Refuses.orElse ((refuses_satisfy (hdigit.mono fun c hc => ?_)).bind _)
      ((refuses_satisfy (hdigit.mono fun c hc => ?_)).bind _)
    · rw [eq_of_beq hc]
      rfl
    · exact (Bool.and_eq_true_iff.mp hc).1
  exact hsign.refuses_bind fun _ _ => hwhole.bind _

end Parser

end MutationInput.Tree
