import Mathlib.Logic.Basic
import MutationInput.Proofs.CommandLine.Headers

/-!
# Tokens and control characters

The name of a header is a token: visible characters of ASCII, none of which is a delimiter. Its
value has no control character but tabs. `isHeaderName_iff` and `not_isHeaderValue_iff` tie the two
to the characters that are looked at one by one. A name is kept in lower case, in which all
spellings of it are one, `headerName?_eq_some_iff`.
-/
namespace MutationInput

namespace Text

/-- A letter in lower case stays as it is. -/
@[simp] theorem toLower_toLower (c : Char) : c.toLower.toLower = c.toLower := by
  by_cases h : c.val ≥ 'A'.val ∧ c.val ≤ 'Z'.val
  · have hval : c.toLower.val = c.val + 32 := congrArg Char.val (dif_pos h)
    have hnot : ¬(c.toLower.val ≥ 'A'.val ∧ c.toLower.val ≤ 'Z'.val) := by
      obtain ⟨hlow, hhigh⟩ := h
      rw [hval]
      simp only [ge_iff_le, UInt32.le_iff_toNat_le, UInt32.toNat_add] at *
      change 65 ≤ c.val.toNat at hlow
      change c.val.toNat ≤ 90 at hhigh
      change ¬(65 ≤ (c.val.toNat + 32) % 2 ^ 32 ∧ (c.val.toNat + 32) % 2 ^ 32 ≤ 90)
      omega
    exact dif_neg hnot
  · have hkeep : c.toLower = c := dif_neg h
    rw [hkeep, hkeep]

/-- Lower case stays as it is. -/
@[simp] theorem lowerAscii_lowerAscii (s : String) :
    lowerAscii (lowerAscii s) = lowerAscii s := by
  simp [lowerAscii, Function.comp_def]

end Text

namespace Http

/-- The characters that separate the parts of a header. -/
def delimiters : List Char :=
  "\"(),/:;<=>?@[\\]\x7b\x7d".toList

/-- A text is a token. -/
structure IsToken (s : String) : Prop where
  ne_empty : s ≠ ""
  visible : ∀ c ∈ s.toList, 0x20 < c.toNat ∧ c.toNat < 0x7F
  no_delimiter : ∀ c ∈ s.toList, c ∉ delimiters

/-- A control character of ASCII. -/
def IsControl (c : Char) : Prop :=
  c.toNat < 0x20 ∨ c.toNat = 0x7F

/-- There is a control character other than a tab. -/
def HasControl (s : String) : Prop :=
  ∃ c ∈ s.toList, IsControl c ∧ c ≠ '\t'

theorem isTokenChar_of_ascii : ∀ n : Fin 128, isTokenChar (Char.ofNat n) =
    decide (0x20 < n.val ∧ n.val < 0x7F ∧ Char.ofNat n ∉ delimiters) := by
  decide +kernel

/-- A token has no character beyond ASCII. -/
theorem toNat_lt_of_isTokenChar {c : Char} (h : isTokenChar c = true) : c.toNat < 128 := by
  simp only [isTokenChar, Bool.or_eq_true] at h
  rcases h with h | h
  · have hupper : c.isUpper = true → c.toNat ≤ 90 := fun h =>
      UInt32.le_iff_toNat_le.mp (of_decide_eq_true h).2
    have hlower : c.isLower = true → c.toNat ≤ 122 := fun h =>
      UInt32.le_iff_toNat_le.mp (of_decide_eq_true ((Bool.and_eq_true _ _).mp h).2)
    have hdigit : c.isDigit = true → c.toNat ≤ 57 := fun h =>
      UInt32.le_iff_toNat_le.mp (of_decide_eq_true ((Bool.and_eq_true _ _).mp h).2)
    have hkinds : (c.isUpper = true ∨ c.isLower = true) ∨ c.isDigit = true := by
      rw [← Bool.or_eq_true, ← Bool.or_eq_true]
      exact h
    rcases hkinds with (h | h) | h
    · exact Nat.lt_of_le_of_lt (hupper h) (by decide)
    · exact Nat.lt_of_le_of_lt (hlower h) (by decide)
    · exact Nat.lt_of_le_of_lt (hdigit h) (by decide)
  · have hmarks : "!#$%&'*+-.^_`|~".toList.all (·.toNat < 128) = true := by decide +kernel
    simpa using List.all_eq_true.mp hmarks c (by simpa using h)

theorem isTokenChar_iff {c : Char} : isTokenChar c = true ↔
    (0x20 < c.toNat ∧ c.toNat < 0x7F) ∧ c ∉ delimiters := by
  by_cases hc : c.toNat < 128
  · have h := isTokenChar_of_ascii ⟨c.toNat, hc⟩
    simp only [Char.ofNat_toNat] at h
    rw [h, decide_eq_true_iff, and_assoc]
  · constructor
    · exact fun h => absurd (toNat_lt_of_isTokenChar h) hc
    · rintro ⟨⟨-, hlt⟩, -⟩
      omega

/-- The names of headers are the tokens that are not too long. -/
theorem isHeaderName_iff {name : String} :
    IsHeaderName name ↔ IsToken name ∧ name.length ≤ maxHeaderName := by
  constructor
  · rintro ⟨hne, hlength, htokens⟩
    exact ⟨⟨hne, fun c hc => (isTokenChar_iff.mp (htokens c hc)).1,
      fun c hc => (isTokenChar_iff.mp (htokens c hc)).2⟩, hlength⟩
  · rintro ⟨⟨hne, hvisible, hdelimiter⟩, hlength⟩
    exact ⟨hne, hlength, fun c hc => isTokenChar_iff.mpr ⟨hvisible c hc, hdelimiter c hc⟩⟩

theorem isValueChar_eq_false_iff {c : Char} :
    isValueChar c = false ↔ IsControl c ∧ c ≠ '\t' := by
  simp only [isValueChar, IsControl, Bool.or_eq_false_iff, beq_eq_false_iff_ne,
    Bool.and_eq_false_iff, decide_eq_false_iff_not, bne_eq_false_iff_eq, Nat.not_le]
  exact and_comm

/-- The values of headers are the texts without control characters other than tabs. -/
theorem not_isHeaderValue_iff {value : String} : ¬IsHeaderValue value ↔ HasControl value := by
  simp only [IsHeaderValue, HasControl, not_forall, exists_prop, Bool.not_eq_true,
    isValueChar_eq_false_iff]

/-- A name is kept in lower case. -/
theorem headerName?_eq_some_iff {name key : String} :
    headerName? name = some key ↔ IsHeaderName name ∧ Text.lowerAscii name = key := by
  rw [← isSome_headerName?_iff]
  simp only [headerName?]
  split <;> simp

end Http

end MutationInput
