import MutationInput.Text.Utf8
import Mathlib.Data.String.Basic
import Mathlib.Data.UInt

/-!
# The bytes of a character

The encoding of a character is one first byte, which tells by its size how many bytes follow, and
one byte for each of the last digits of the character's number to the base 64
(`exists_leads`). From this form follow the order of encodings, which is that of the characters,
so that texts are in order exactly if their bytes are (`encode_lt_encode_iff`), and that no
encoding begins another one (`eq_of_append_eq`).
-/
namespace MutationInput.Text

/-! ## First byte and continuation -/

/-- The bytes for the last `k` digits of a number to the base 64. -/
def continuation (n : Nat) : Nat → List UInt8
  | 0 => []
  | k + 1 => UInt8.ofNat (0x80 + n / 64 ^ k % 64) :: continuation n k

@[simp] theorem length_continuation (n k : Nat) : (continuation n k).length = k := by
  induction k with
  | zero => rfl
  | succ k ih => rw [continuation, List.length_cons, ih]

/-- A character of number `n` has the first byte `b` and `k` bytes behind it. -/
inductive Leads (n : Nat) : Nat → Nat → Prop where
  | one (upper : n < 0x80) : Leads n n 0
  | two (lower : 0x80 ≤ n) (upper : n < 0x800) : Leads n (0xC0 + n / 64 ^ 1) 1
  | three (lower : 0x800 ≤ n) (upper : n < 0x10000) : Leads n (0xE0 + n / 64 ^ 2) 2
  | four (lower : 0x10000 ≤ n) (upper : n < 0x110000) : Leads n (0xF0 + n / 64 ^ 3) 3

theorem leads_iff {n b k : Nat} : Leads n b k ↔
    k = 0 ∧ n < 0x80 ∧ b = n ∨
    k = 1 ∧ 0x80 ≤ n ∧ n < 0x800 ∧ b = 0xC0 + n / 64 ^ 1 ∨
    k = 2 ∧ 0x800 ≤ n ∧ n < 0x10000 ∧ b = 0xE0 + n / 64 ^ 2 ∨
    k = 3 ∧ 0x10000 ≤ n ∧ n < 0x110000 ∧ b = 0xF0 + n / 64 ^ 3 := by
  constructor
  · intro h
    cases h <;> simp [*]
  · rintro (⟨rfl, h, rfl⟩ | ⟨rfl, h, h', rfl⟩ | ⟨rfl, h, h', rfl⟩ | ⟨rfl, h, h', rfl⟩)
    · exact .one h
    · exact .two h h'
    · exact .three h h'
    · exact .four h h'

theorem Leads.lt {n b k : Nat} (h : Leads n b k) : b < 256 := by
  cases h <;> omega

/-- A number has one first byte. -/
theorem Leads.unique {n b b' k k' : Nat} (h : Leads n b k) (h' : Leads n b' k') :
    b = b' ∧ k = k' := by
  cases h <;> cases h' <;> omega

theorem isValidChar_toNat (c : Char) : c.toNat.isValidChar :=
  c.valid

/-- A number that is valid for a character is that of its character. -/
theorem toNat_ofNat {n : Nat} (h : n.isValidChar) : (Char.ofNat n).toNat = n := by
  rw [Char.ofNat, dif_pos h]
  rfl

theorem toNat_lt (c : Char) : c.toNat < 0x110000 := by
  have h := isValidChar_toNat c
  rw [Nat.isValidChar] at h
  omega

/-- A character is encoded in its first byte and the digits behind it. -/
theorem exists_leads (c : Char) :
    ∃ (b : UInt8) (k : Nat), Leads c.toNat b.toNat k ∧
      String.utf8EncodeChar c = b :: continuation c.toNat k := by
  have hlt : c.val.toNat < 0x110000 := toNat_lt c
  have hform : ∃ b k, Leads c.toNat b k ∧
      String.utf8EncodeChar c = UInt8.ofNat b :: continuation c.toNat k := by
    fun_cases String.utf8EncodeChar c with
    | case1 v h => exact ⟨_, _, .one (Nat.lt_succ_of_le h), rfl⟩
    | case2 v h h' =>
        have hfirst : v / 64 % 32 = v / 64 := by omega
        refine ⟨_, _, .two (Nat.lt_of_not_le h) (Nat.lt_succ_of_le h'), ?_⟩
        rw [hfirst]
        simp [continuation, Nat.add_comm, v]
    | case3 v h h' h'' =>
        have hfirst : v / 4096 % 16 = v / 4096 := by omega
        refine ⟨_, _, .three (Nat.lt_of_not_le h') (Nat.lt_succ_of_le h''), ?_⟩
        rw [hfirst]
        simp [continuation, Nat.add_comm, v]
    | case4 v h h' h'' =>
        have hfirst : v / 262144 % 8 = v / 262144 := by omega
        refine ⟨_, _, .four (Nat.lt_of_not_le h'') hlt, ?_⟩
        rw [hfirst]
        simp [continuation, Nat.add_comm, v]
  obtain ⟨b, k, hleads, hencode⟩ := hform
  have hb : (UInt8.ofNat b).toNat = b := by
    rw [UInt8.toNat_ofNat', Nat.mod_eq_of_lt hleads.lt]
  exact ⟨UInt8.ofNat b, k, hb.symm ▸ hleads, hencode⟩

/-! ## Order -/

/-- Greater numbers have greater first bytes, or the same one and greater digits. -/
theorem Leads.lt_or_eq {m n b b' k k' : Nat} (hm : Leads m b k) (hn : Leads n b' k')
    (h : m < n) : b < b' ∨ b = b' ∧ k = k' ∧ m / 64 ^ k = n / 64 ^ k := by
  cases hm <;> cases hn <;> omega

theorem ofNat_lt_ofNat {a b : Nat} (hb : b < 256) (h : a < b) : UInt8.ofNat a < UInt8.ofNat b := by
  rw [UInt8.lt_iff_toNat_lt, UInt8.toNat_ofNat', UInt8.toNat_ofNat']
  omega

/-- The digits of numbers that are equal in front of them are in the order of the numbers. -/
theorem continuation_append_lt {m n k : Nat} (hq : m / 64 ^ k = n / 64 ^ k) (h : m < n)
    (r r' : List UInt8) : continuation m k ++ r < continuation n k ++ r' := by
  induction k with
  | zero =>
      rw [pow_zero, Nat.div_one, Nat.div_one] at hq
      omega
  | succ k ih =>
      rw [pow_succ, ← Nat.div_div_eq_div_mul, ← Nat.div_div_eq_div_mul] at hq
      rw [continuation, continuation, List.cons_append, List.cons_append, List.cons_lt_cons_iff]
      have hle : m / 64 ^ k ≤ n / 64 ^ k := Nat.div_le_div_right h.le
      by_cases heq : m / 64 ^ k = n / 64 ^ k
      · exact .inr ⟨by rw [heq], ih heq⟩
      · exact .inl (ofNat_lt_ofNat (by omega) (by omega))

/-- The encodings of characters are in the order of the characters, whatever stands behind them. -/
theorem utf8EncodeChar_append_lt {c d : Char} (h : c < d) (r r' : List UInt8) :
    String.utf8EncodeChar c ++ r < String.utf8EncodeChar d ++ r' := by
  obtain ⟨b, k, hc, hencode⟩ := exists_leads c
  obtain ⟨b', k', hd, hencode'⟩ := exists_leads d
  have hlt : c.toNat < d.toNat := h
  rw [hencode, hencode', List.cons_append, List.cons_append, List.cons_lt_cons_iff]
  rcases hc.lt_or_eq hd hlt with hb | ⟨hb, rfl, hq⟩
  · exact .inl (UInt8.lt_iff_toNat_lt.mpr hb)
  · exact .inr ⟨UInt8.toNat_inj.mp hb, continuation_append_lt hq hlt r r'⟩

theorem encode_lt_encode {s t : String} (h : s < t) : encode s < encode t := by
  rw [String.lt_iff_toList_lt] at h
  simp only [encode]
  generalize s.toList = cs, t.toList = ds at h
  induction h with
  | @nil d ds =>
      obtain ⟨b, k, -, hencode⟩ := exists_leads d
      rw [List.flatMap_cons, hencode]
      exact List.nil_lt_cons _ _
  | cons _ ih => exact List.append_left_lt ih
  | rel h => exact utf8EncodeChar_append_lt h _ _

/-- Texts are in order exactly if their bytes are. -/
theorem encode_lt_encode_iff {s t : String} : encode s < encode t ↔ s < t := by
  refine ⟨fun h => ?_, encode_lt_encode⟩
  rcases lt_trichotomy s t with hlt | rfl | hgt
  · exact hlt
  · exact absurd h (List.lt_irrefl _)
  · exact absurd h (List.lt_asymm (encode_lt_encode hgt))

/-- No encoding begins another one. -/
theorem eq_of_append_eq {c d : Char} {r r' : List UInt8}
    (h : String.utf8EncodeChar c ++ r = String.utf8EncodeChar d ++ r') : c = d := by
  rcases lt_trichotomy c d with hlt | heq | hgt
  · have hbytes := utf8EncodeChar_append_lt hlt r r'
    rw [h] at hbytes
    exact absurd hbytes (List.lt_irrefl _)
  · exact heq
  · have hbytes := utf8EncodeChar_append_lt hgt r' r
    rw [h] at hbytes
    exact absurd hbytes (List.lt_irrefl _)

end MutationInput.Text
