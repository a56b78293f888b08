import MutationInput.Json.Printer
import MutationInput.Json.Lexer
import Mathlib.Tactic.IntervalCases
import Mathlib.Data.List.Basic

/-!
# Reading printed tokens

What the printer writes for a string or an integer of 64 bits is read back from the front of any
text, with the rest of the text left as it is: `readString_quotedRest`, `readNumber_toDigits` and
`readNumber_negative`.
A number ends only where the text does not go on as a number could, which is `Ends`.
-/
namespace MutationInput

/-- The number is an integer of 64 bits, with a sign or without one. -/
def Number.IsWhole : Number → Prop
  | .integer n => -signedBound ≤ n ∧ n < UInt64.size
  | .float _ => False

instance : DecidablePred Number.IsWhole
  | .integer n => inferInstanceAs (Decidable (-Number.signedBound ≤ n ∧ n < UInt64.size))
  | .float _ => inferInstanceAs (Decidable False)

namespace Json

open Text (Piece)

/-- Characters as a text to be read. -/
def source (cs : List Char) : Source :=
  cs.map .char

@[simp] theorem source_nil : source [] = [] := rfl

@[simp] theorem source_cons (c : Char) (cs : List Char) : source (c :: cs) = .char c :: source cs :=
  rfl

@[simp] theorem source_append (cs ds : List Char) :
    source (cs ++ ds) = source cs ++ source ds :=
  List.map_append

@[simp] theorem length_source (cs : List Char) : (source cs).length = cs.length :=
  List.length_map _

/-- The text does not go on with a character that a number could go on with. -/
def Ends (s : Source) : Prop :=
  ∀ c rest, s = .char c :: rest → c.isDigit = false ∧ c ≠ '.' ∧ c ≠ 'e' ∧ c ≠ 'E'

theorem ends_nil : Ends [] := by
  intro c rest h
  cases h

theorem ends_cons {c : Char} (hd : c.isDigit = false) (hpoint : c ≠ '.') (hlow : c ≠ 'e')
    (hhigh : c ≠ 'E') (s : Source) : Ends (.char c :: s) := by
  intro c' rest h
  cases h
  exact ⟨hd, hpoint, hlow, hhigh⟩

/-! ## Blanks -/

/-- Blanks between tokens are passed over. -/
theorem skipGap_source {blanks : List Char} (h : ∀ c ∈ blanks, isGap c = true) (s : Source) :
    skipGap (source blanks ++ s) = skipGap s := by
  induction blanks with
  | nil => rfl
  | cons c blanks ih =>
      rw [source_cons, List.cons_append, skipGap, if_pos (h c (by simp))]
      exact ih fun c' hc' => h c' (by simp [hc'])

/-- A text that does not begin with a blank begins with its first token. -/
theorem skipGap_char {c : Char} (h : isGap c = false) (s : Source) :
    skipGap (.char c :: s) = .char c :: s := by
  rw [skipGap, if_neg (by simp [h])]

/-! ## Integers -/

/-- Digits are read as far as they go. -/
theorem spanDigits_source {ds : List Char} (hds : ∀ c ∈ ds, c.isDigit = true) {s : Source}
    (hs : Ends s) : spanDigits (source ds ++ s) = (ds, s) := by
  induction ds with
  | nil =>
      cases s with
      | nil => rfl
      | cons p rest =>
          cases p with
          | char c => simp [spanDigits, (hs c rest rfl).1]
          | broken bytes => rfl
  | cons c ds ih =>
      have hrest := ih fun c' hc' => hds c' (by simp [hc'])
      simp [spanDigits, hds c (by simp), hrest]

/-- The decimal digits of a positive number do not begin with a zero. -/
theorem head?_toDigits_ne {n : Nat} (hn : 0 < n) : (Nat.toDigits 10 n).head? ≠ some '0' := by
  induction n using Nat.strong_induction_on with
  | _ n ih =>
      by_cases hlt : n < 10
      · rw [Nat.toDigits_of_lt_base hlt]
        interval_cases n <;> decide
      · have hpos : 0 < n / 10 := Nat.div_pos (Nat.le_of_not_lt hlt) (by decide)
        rw [Nat.toDigits_of_base_le (by decide) (Nat.le_of_not_lt hlt),
          List.head?_append_of_ne_nil _ Nat.toDigits_ne_nil]
        exact ih (n / 10) (Nat.div_lt_self hn (by decide)) hpos

theorem toDigits_ne_zero_cons (n : Nat) (c : Char) (ds : List Char) :
    Nat.toDigits 10 n ≠ '0' :: c :: ds := by
  intro h
  rcases Nat.eq_zero_or_pos n with rfl | hn
  · cases h
  · exact head?_toDigits_ne hn (by rw [h]; rfl)

theorem value_toDigits (n : Nat) : Numeral.value (Nat.toDigits 10 n) = n := by
  have h : Nat.ofDigitChars 10 (Nat.toDigits 10 n) 0 = n :=
    Nat.ofDigitChars_toDigits (by decide) (by decide)
  simpa only [Nat.ofDigitChars, Numeral.value, Numeral.digit, Nat.mul_comm] using h

/-- The digits of a number are read as a whole number. -/
theorem wholePart_toDigits (ended : Fault) (n : Nat) {s : Source} (hs : Ends s) :
    wholePart ended (source (Nat.toDigits 10 n) ++ s) = .ok (Nat.toDigits 10 n, s) := by
  have hspan : spanDigits (source (Nat.toDigits 10 n) ++ s) = (Nat.toDigits 10 n, s) :=
    spanDigits_source (fun c hc => Nat.isDigit_of_mem_toDigits (by decide) (by decide) hc) hs
  have hdigits : digits1 ended (source (Nat.toDigits 10 n) ++ s) = .ok (Nat.toDigits 10 n, s) := by
    simp only [digits1, hspan]
    split
    · next h => exact absurd (Prod.mk.inj h).1 Nat.toDigits_ne_nil
    · next h => exact absurd (Prod.mk.inj h).1 Nat.toDigits_ne_nil
    · rfl
  simp only [wholePart, hdigits]
  split
  · next c ds rest h =>
      exact absurd (Prod.mk.inj (Except.ok.inj h)).1 (toDigits_ne_zero_cons n c ds)
  · rfl

theorem fractionPart_ends (ended : Fault) {s : Source} (hs : Ends s) :
    fractionPart ended s = .ok (none, s) := by
  unfold fractionPart
  split
  · next rest => exact absurd rfl (hs '.' rest rfl).2.1
  · rfl

theorem exponentPart_ends (ended : Fault) {s : Source} (hs : Ends s) :
    exponentPart ended s = .ok (none, s) := by
  unfold exponentPart
  split
  · next c rest =>
      obtain ⟨-, -, hlow, hhigh⟩ := hs c rest rfl
      rw [if_neg (by simp [hlow, hhigh])]
  · rfl

/-- The digits of a number are a numeral without fraction and exponent. -/
theorem readNumeral_toDigits (ended : Fault) (negative : Bool) (n : Nat) {s : Source}
    (hs : Ends s) :
    readNumeral ended negative (source (Nat.toDigits 10 n) ++ s) =
      .ok (⟨negative, Nat.toDigits 10 n, none, none⟩, s) := by
  simp only [readNumeral, wholePart_toDigits ended n hs]
  change (fractionPart ended s >>= _) = _
  rw [fractionPart_ends ended hs]
  change (exponentPart ended s >>= _) = _
  rw [exponentPart_ends ended hs]
  rfl

/-- A numeral of these digits alone is the integer, if it fits 64 bits. -/
theorem toNumber_toDigits {n : Nat} (hn : n < UInt64.size) :
    Numeral.toNumber ⟨false, Nat.toDigits 10 n, none, none⟩ = .integer n := by
  simp [Numeral.toNumber, Numeral.toInteger?, value_toDigits, hn]

/-- The digits of an integer without a sign denote it, if it fits 64 bits. -/
theorem readNumber_toDigits {n : Nat} (hn : n < UInt64.size) {s : Source} (hs : Ends s) :
    readNumber false (source (Nat.toDigits 10 n) ++ s) = .ok (.integer n, s) := by
  have hnumber := toNumber_toDigits hn
  simp only [readNumber, readNumeral_toDigits .truncated false n hs]
  change (if (Numeral.toNumber _).overflows then _ else _) = _
  rw [hnumber]
  rfl

/-- The digits after a sign denote a negative integer, if it fits 64 bits. -/
theorem readNumber_negative {n : Nat} (hpos : 0 < n) (hn : n ≤ Number.signedBound) {s : Source}
    (hs : Ends s) :
    readNumber true (source (Nat.toDigits 10 n) ++ s) = .ok (.integer (-n), s) := by
  have hnumber : Numeral.toNumber ⟨true, Nat.toDigits 10 n, none, none⟩ = .integer (-n) := by
    simp [Numeral.toNumber, Numeral.toInteger?, value_toDigits, hpos, hn]
  simp only [readNumber, readNumeral_toDigits .truncated true n hs]
  change (if (Numeral.toNumber _).overflows then _ else _) = _
  rw [hnumber]
  rfl

/-! ## Strings -/

/-- A piece that completes nothing changes only the state. -/
theorem scanString_silent {checked : Bool} {state state' : StringState} {p : Piece}
    (h : stringStep checked state p = .next state' none) (s : Source) :
    scanString checked state (p :: s) = scanString checked state' s := by
  simp only [scanString, h]
  cases scanString checked state' s <;> rfl

/-- A piece that completes another one puts it in front of what follows. -/
theorem scanString_out {checked : Bool} {state state' : StringState} {p q : Piece}
    (h : stringStep checked state p = .next state' (some q)) (s : Source) :
    scanString checked state (p :: s) =
      (scanString checked state' s).map fun r => (q :: r.1, r.2) := by
  simp only [scanString, h]
  rfl

/-- The last digit of an escaped control character completes the character. -/
theorem stringStep_control {n : Nat} (hn : n < 0x20) :
    stringStep true (.hex none [.char '0', .char '0', .char (Nat.digitChar (n / 16))])
      (.char (Nat.digitChar (n % 16))) = .next .plain (some (.char (Char.ofNat n))) := by
  interval_cases n <;> rfl

/-- The two written digits of a control character are not yet a unit. -/
theorem stringStep_digit {n : Nat} (hn : n < 0x20) :
    stringStep true (.hex none [.char '0', .char '0']) (.char (Nat.digitChar (n / 16))) =
      .next (.hex none [.char '0', .char '0', .char (Nat.digitChar (n / 16))]) none := by
  interval_cases n <;> rfl

/-- A character without an escape stands for itself. -/
theorem stringStep_plain {c : Char} (hquote : c ≠ '"') (hslash : c ≠ '\\') (hc : ¬c.toNat < 0x20) :
    stringStep true .plain (.char c) = .next .plain (some (.char c)) := by
  simp only [stringStep]
  rw [if_neg hc]

/-- The text of a character is read as the character. -/
theorem scanString_escapeChar (c : Char) (s : Source) :
    scanString true .plain (source (escapeChar c) ++ s) =
      (scanString true .plain s).map fun r => (.char c :: r.1, r.2) := by
  unfold escapeChar
  split
  iterate 7 exact (scanString_silent rfl _).trans (scanString_out rfl _)
  next hquote hslash _ _ _ _ _ =>
    split
    · next hc =>
        have hlast := stringStep_control hc
        rw [Char.ofNat_toNat] at hlast
        calc scanString true .plain (source _ ++ s)
            = scanString true (.hex none [.char '0', .char '0'])
                (.char (Nat.digitChar (c.toNat / 16)) ::
                  .char (Nat.digitChar (c.toNat % 16)) :: s) :=
              (scanString_silent rfl _).trans <| (scanString_silent rfl _).trans <|
                (scanString_silent rfl _).trans (scanString_silent rfl _)
          _ = _ := (scanString_silent (stringStep_digit hc) _).trans (scanString_out hlast _)
    · next hc => exact scanString_out (stringStep_plain hquote hslash hc) s

/-- A printed string is scanned up to its closing quote. -/
theorem scanString_escaped (cs : List Char) (s : Source) :
    scanString true .plain (source (cs.flatMap escapeChar ++ ['"']) ++ s) = .ok (source cs, s) := by
  induction cs with
  | nil => rfl
  | cons c cs ih =>
      rw [List.flatMap_cons, List.append_assoc, source_append, List.append_assoc,
        scanString_escapeChar, ih]
      rfl

theorem mapM_char?_source (cs : List Char) : (source cs).mapM Piece.char? = some cs := by
  induction cs with
  | nil => rfl
  | cons c cs ih => simp [List.mapM_cons, Piece.char?, ih]

/-- A printed string without its opening quote. -/
def quotedRest (t : String) : List Char :=
  t.toList.flatMap escapeChar ++ ['"']

theorem printString_eq (t : String) : printString t = '"' :: quotedRest t := rfl

/-- A printed string is read back, its opening quote already read. -/
theorem readString_quotedRest (t : String) (s : Source) :
    readString (source (quotedRest t) ++ s) = .ok (t, s) := by
  simp only [readString, quotedRest, scanString_escaped, bind, Except.bind]
  simp [mapM_char?_source, pure, Except.pure]

end Json
end MutationInput
