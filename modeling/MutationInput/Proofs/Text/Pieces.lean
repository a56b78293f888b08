import MutationInput.Proofs.Text.Encoding
import Mathlib.Data.List.Infix
import Mathlib.Tactic.SplitIfs

/-!
# The split of a byte sequence

A byte sequence splits into encodings of characters and maximal parts that belong to none
(`Splits`). There is one such split, and the machine that reads one byte at a time finds it:
`splits_iff`. The invariant is `Pending.Stands`: the state inside an encoding stands for exactly
the characters whose encodings begin with the bytes that were read.
-/
namespace MutationInput.Text

/-! ## The split -/

/-- The part is maximal at the front of bytes that begin with no character: the longest sequence of
bytes there with which the encoding of some character begins, or else a single byte. -/
structure IsMaximalPart (part bytes : List UInt8) : Prop where
  front : part <+: bytes
  no_character : ∀ c, ¬String.utf8EncodeChar c <+: bytes
  begins_or_single : (part ≠ [] ∧ ∃ c, part <+: String.utf8EncodeChar c) ∨ part.length = 1
  longest : ∀ q c, q <+: bytes → q <+: String.utf8EncodeChar c → q.length ≤ part.length

/-- Bytes are the encodings of characters and maximal parts that belong to none, in this order. -/
inductive Splits : List UInt8 → List Piece → Prop where
  | nil : Splits [] []
  | char (c : Char) {rest : List UInt8} {ps : List Piece} (tail : Splits rest ps) :
      Splits (String.utf8EncodeChar c ++ rest) (.char c :: ps)
  | broken {part rest : List UInt8} {ps : List Piece}
      (maximal : IsMaximalPart part (part ++ rest)) (tail : Splits rest ps) :
      Splits (part ++ rest) (.broken part :: ps)

theorem IsMaximalPart.ne_nil {part bytes : List UInt8} (h : IsMaximalPart part bytes) :
    part ≠ [] := by
  rcases h.begins_or_single with ⟨hne, -⟩ | hlength
  · exact hne
  · exact List.ne_nil_of_length_eq_add_one hlength

/-- There is one maximal part. -/
theorem IsMaximalPart.unique {part part' bytes : List UInt8} (h : IsMaximalPart part bytes)
    (h' : IsMaximalPart part' bytes) : part = part' := by
  have hle : ∀ {x y : List UInt8}, IsMaximalPart x bytes → IsMaximalPart y bytes →
      x.length ≤ y.length := by
    intro x y hx hy
    rcases hx.begins_or_single with ⟨-, c, hc⟩ | hlength
    · exact hy.longest x c hx.front hc
    · have hpos := List.length_pos_of_ne_nil hy.ne_nil
      omega
  have hlength : part.length = part'.length := Nat.le_antisymm (hle h h') (hle h' h)
  exact (List.prefix_of_prefix_length_le h.front h'.front hlength.le).eq_of_length hlength

/-- A byte sequence has one split. -/
theorem Splits.unique {bytes : List UInt8} {ps ps' : List Piece} (h : Splits bytes ps)
    (h' : Splits bytes ps') : ps = ps' := by
  induction h generalizing ps' with
  | nil =>
      generalize hbytes : ([] : List UInt8) = bytes at h'
      cases h' with
      | nil => rfl
      | char c _ =>
          exact absurd (List.append_eq_nil_iff.mp hbytes.symm).1 String.utf8EncodeChar_ne_nil
      | broken maximal _ => exact absurd (List.append_eq_nil_iff.mp hbytes.symm).1 maximal.ne_nil
  | @char c rest ps _ ih =>
      generalize hbytes : String.utf8EncodeChar c ++ rest = bytes at h'
      cases h' with
      | nil => exact absurd (List.append_eq_nil_iff.mp hbytes).1 String.utf8EncodeChar_ne_nil
      | char d tail =>
          obtain rfl := eq_of_append_eq hbytes
          rw [ih (List.append_cancel_left hbytes ▸ tail)]
      | broken maximal _ => exact absurd ⟨rest, hbytes⟩ (maximal.no_character c)
  | @broken part rest ps maximal _ ih =>
      generalize hbytes : part ++ rest = bytes at h' maximal
      cases h' with
      | nil => exact absurd (List.append_eq_nil_iff.mp hbytes).1 maximal.ne_nil
      | char d _ => exact absurd (List.prefix_append _ _) (maximal.no_character d)
      | broken maximal' tail =>
          obtain rfl := maximal.unique maximal'
          rw [ih (List.append_cancel_left hbytes ▸ tail)]

/-- The bytes are those of the pieces. -/
theorem Splits.bytes_eq {bytes : List UInt8} {ps : List Piece} (h : Splits bytes ps) :
    bytes = ps.flatMap Piece.bytes := by
  induction h with
  | nil => rfl
  | char c _ ih => rw [List.flatMap_cons, ← ih, Piece.bytes]
  | broken _ _ ih => rw [List.flatMap_cons, ← ih, Piece.bytes]

/-- An encoded text splits into its characters. -/
theorem splits_encode (s : String) : Splits (encode s) (s.toList.map .char) := by
  rw [encode]
  induction s.toList with
  | nil => exact .nil
  | cons c cs ih =>
      rw [List.flatMap_cons, List.map_cons]
      exact .char c ih

/-! ## Inside an encoding -/

namespace Pending

/-- The first digits of the number were read, and its next one is in the bounds. -/
def Covers (p : Pending) (n : Nat) : Prop :=
  n / 64 ^ (p.owed + 1) = p.value ∧
    p.low.toNat ≤ 0x80 + n / 64 ^ p.owed % 64 ∧ 0x80 + n / 64 ^ p.owed % 64 ≤ p.high.toNat

/-- The state stands for the characters whose encodings begin with the bytes that were read: they
are those that it covers, and what it covers are characters. -/
structure Stands (p : Pending) : Prop where
  begun : p.bytes ≠ []
  least : 0x80 ≤ p.low.toNat
  bounds : p.low.toNat ≤ p.high.toNat
  greatest : p.high.toNat ≤ 0xBF
  valid : ∀ n, p.Covers n → n.isValidChar
  covers : ∀ c : Char, p.bytes <+: String.utf8EncodeChar c → p.Covers c.toNat
  encodes : ∀ c : Char, p.Covers c.toNat →
    String.utf8EncodeChar c = p.bytes ++ continuation c.toNat (p.owed + 1)
  unfinished : ∀ c, ¬String.utf8EncodeChar c <+: p.bytes

end Pending

/-- What a byte begins: a character of its own, nothing, or the encodings of the characters that
have it as their first byte. -/
inductive Begins (b : UInt8) : Piece ⊕ Pending → Prop where
  | char (upper : b.toNat < 0x80) : Begins b (.inl (.char (Char.ofNat b.toNat)))
  | stray (no_first : ∀ n k, ¬Leads n b.toNat k) : Begins b (.inl (.broken [b]))
  | pending {p : Pending} (bytes : p.bytes = [b]) (least : 0x80 ≤ p.low.toNat)
      (bounds : p.low.toNat ≤ p.high.toNat) (greatest : p.high.toNat ≤ 0xBF)
      (covered : ∀ n, p.Covers n → n.isValidChar ∧ Leads n b.toNat (p.owed + 1))
      (covers : ∀ n k, n.isValidChar → Leads n b.toNat k → p.Covers n) :
      Begins b (.inr p)

theorem begins_lead (b : UInt8) : Begins b (lead b) := by
  have hE0 : b = 0xE0 ↔ b.toNat = 0xE0 := UInt8.toNat_inj.symm
  have hED : b = 0xED ↔ b.toNat = 0xED := UInt8.toNat_inj.symm
  have hF0 : b = 0xF0 ↔ b.toNat = 0xF0 := UInt8.toNat_inj.symm
  have hF4 : b = 0xF4 ↔ b.toNat = 0xF4 := UInt8.toNat_inj.symm
  simp only [lead, UInt8.lt_iff_toNat_lt, hE0, hED, hF0, hF4, UInt8.reduceToNat]
  split_ifs with ascii
  · exact .char ascii
  · refine .stray fun n k => ?_
    rw [leads_iff]
    omega
  case neg =>
    refine .stray fun n k => ?_
    rw [leads_iff]
    omega
  all_goals
    refine .pending rfl (by simp) (by simp) (by simp) (fun n => ?_) (fun n k => ?_)
    all_goals
      -- Where the number of bytes is known, three of the four forms go away at once.
      simp only [Pending.Covers, leads_iff, Nat.isValidChar, UInt8.reduceToNat, Nat.reduceAdd,
        Nat.reducePow, Nat.div_one, true_and, Nat.reduceEqDiff, one_ne_zero, OfNat.ofNat_ne_zero,
        OfNat.ofNat_ne_one, OfNat.one_ne_ofNat, false_and, false_or, or_false]
      omega

namespace Pending

/-- After the first byte the state stands for the characters that have it. -/
theorem stands_lead {b : UInt8} {p : Pending} (h : lead b = .inr p) :
    p.Stands ∧ p.bytes = [b] := by
  have hbegins := begins_lead b
  rw [h] at hbegins
  cases hbegins with
  | pending bytes least bounds greatest covered covers =>
      have hfirst : ∀ c : Char, [b] <+: String.utf8EncodeChar c → p.Covers c.toNat := by
        intro c hfront
        obtain ⟨b', k, hleads, hencode⟩ := exists_leads c
        rw [hencode, List.cons_prefix_cons] at hfront
        obtain ⟨rfl, -⟩ := hfront
        exact covers _ _ (isValidChar_toNat c) hleads
      refine ⟨⟨by simp [bytes], least, bounds, greatest, fun n hn => (covered n hn).1, ?_, ?_, ?_⟩,
        bytes⟩
      · intro c hfront
        exact hfirst c (bytes ▸ hfront)
      · intro c hc
        obtain ⟨b', k, hleads, hencode⟩ := exists_leads c
        obtain ⟨hb, rfl⟩ := (covered _ hc).2.unique hleads
        rw [hencode, bytes, UInt8.toNat_inj.mp hb]
        rfl
      · intro c hfront
        obtain ⟨b', k, hleads, hencode⟩ := exists_leads c
        rw [bytes, hencode, List.cons_prefix_cons, List.prefix_nil] at hfront
        obtain ⟨rfl, hnil⟩ := hfront
        have hk : k = 0 := by simpa using congrArg List.length hnil
        have hc := covers _ _ (isValidChar_toNat c) hleads
        have howed := ((covered _ hc).2.unique hleads).2
        omega

namespace Stands

variable {p : Pending}

theorem admits_iff {b : UInt8} :
    p.admits b = true ↔ p.low.toNat ≤ b.toNat ∧ b.toNat ≤ p.high.toNat := by
  simp [admits, UInt8.le_iff_toNat_le]

/-- A number has the digits that were read and one more if it is covered and that is its next. -/
theorem div_eq_iff (h : p.Stands) {b : UInt8} (hb : p.admits b = true) (n : Nat) :
    n / 64 ^ p.owed = p.value * 64 + (b.toNat - 0x80) ↔
      p.Covers n ∧ b.toNat = 0x80 + n / 64 ^ p.owed % 64 := by
  have hleast := h.least
  have hgreatest := h.greatest
  rw [admits_iff] at hb
  rw [Covers, pow_succ, ← Nat.div_div_eq_div_mul]
  omega

/-- Some character is encoded beginning with the bytes that were read. -/
theorem exists_begun (h : p.Stands) : ∃ c, p.bytes <+: String.utf8EncodeChar c := by
  have hlow : p.admits p.low = true := admits_iff.mpr ⟨Nat.le_refl _, h.bounds⟩
  have hdiv : (p.value * 64 + (p.low.toNat - 0x80)) * 64 ^ p.owed / 64 ^ p.owed =
      p.value * 64 + (p.low.toNat - 0x80) :=
    Nat.mul_div_cancel _ (Nat.pow_pos (by omega))
  have hcovers := ((h.div_eq_iff hlow _).mp hdiv).1
  refine ⟨Char.ofNat ((p.value * 64 + (p.low.toNat - 0x80)) * 64 ^ p.owed), ?_⟩
  rw [h.encodes _ (by rwa [toNat_ofNat (h.valid _ hcovers)])]
  exact List.prefix_append _ _

/-- A character whose encoding goes on with a byte is covered, and the byte is its next digit. -/
theorem covers_of_begun (h : p.Stands) {b : UInt8} {c : Char}
    (hbegins : p.bytes ++ [b] <+: String.utf8EncodeChar c) :
    p.Covers c.toNat ∧ b.toNat = 0x80 + c.toNat / 64 ^ p.owed % 64 := by
  have hcovers := h.covers c ((List.prefix_append _ _).trans hbegins)
  refine ⟨hcovers, ?_⟩
  rw [h.encodes c hcovers, continuation, List.prefix_append_right_inj, List.cons_prefix_cons]
    at hbegins
  rw [hbegins.1, UInt8.toNat_ofNat']
  omega

/-- A byte that is not admitted goes on with no encoding. -/
theorem not_prefix_of_not_admits (h : p.Stands) {b : UInt8} (hb : p.admits b = false) (c : Char) :
    ¬p.bytes ++ [b] <+: String.utf8EncodeChar c := by
  intro hbegins
  obtain ⟨⟨-, hlow, hhigh⟩, hdigit⟩ := h.covers_of_begun hbegins
  rw [← hdigit] at hlow hhigh
  rw [admits_iff.mpr ⟨hlow, hhigh⟩] at hb
  cases hb

/-- With the last byte the character is there whose encoding was read. -/
theorem push_char (h : p.Stands) {b : UInt8} (hb : p.admits b = true) {piece : Piece}
    (hpush : p.push b = .inl piece) :
    ∃ c, piece = .char c ∧ String.utf8EncodeChar c = p.bytes ++ [b] := by
  cases howed : p.owed with
  | zero =>
      simp only [push, howed, Sum.inl.injEq] at hpush
      have hdiv := h.div_eq_iff hb (p.value * 64 + (b.toNat - 0x80))
      rw [howed, pow_zero, Nat.div_one] at hdiv
      obtain ⟨hcovers, hdigit⟩ := hdiv.mp rfl
      have hnumber := toNat_ofNat (h.valid _ hcovers)
      refine ⟨_, hpush.symm, ?_⟩
      rw [h.encodes _ (hnumber.symm ▸ hcovers), hnumber, howed, continuation, continuation,
        pow_zero, Nat.div_one, ← hdigit, UInt8.ofNat_toNat]
  | succ owed =>
      simp only [push, howed] at hpush
      cases hpush

/-- With a byte that is not the last one the state stands for the characters whose encodings go on
with it. -/
theorem push_pending (h : p.Stands) {b : UInt8} (hb : p.admits b = true) {p' : Pending}
    (hpush : p.push b = .inr p') : p'.Stands ∧ p'.bytes = p.bytes ++ [b] := by
  cases howed : p.owed with
  | zero =>
      simp only [push, howed] at hpush
      cases hpush
  | succ owed =>
      simp only [push, howed, Sum.inr.injEq] at hpush
      have hcovers : ∀ n, p'.Covers n ↔ p.Covers n ∧ b.toNat = 0x80 + n / 64 ^ p.owed % 64 := by
        intro n
        rw [← h.div_eq_iff hb, howed, ← hpush, Covers]
        simp only [UInt8.reduceToNat]
        omega
      have hencodes : ∀ c : Char, p'.Covers c.toNat →
          String.utf8EncodeChar c = p.bytes ++ [b] ++ continuation c.toNat p.owed := by
        intro c hc
        obtain ⟨hpc, hdigit⟩ := (hcovers _).mp hc
        rw [h.encodes c hpc, continuation, ← hdigit, UInt8.ofNat_toNat, List.append_assoc]
        rfl
      have hbytes : p'.bytes = p.bytes ++ [b] := hpush ▸ rfl
      refine ⟨⟨?_, ?_, ?_, ?_, ?_, ?_, ?_, ?_⟩, hbytes⟩
      · simp [hbytes]
      · simp [← hpush]
      · simp [← hpush]
      · simp [← hpush]
      · intro n hn
        exact h.valid n ((hcovers n).mp hn).1
      · intro c hbegins
        exact (hcovers _).mpr (h.covers_of_begun (hbytes ▸ hbegins))
      · intro c hc
        rw [hencodes c hc, hbytes, howed, ← hpush]
      · intro c hbegins
        rw [hbytes, List.prefix_concat_iff] at hbegins
        rcases hbegins with heq | hbegins
        · have hc := h.covers c (heq ▸ List.prefix_append _ _)
          have hlength := congrArg List.length (heq.symm.trans (h.encodes c hc))
          rw [List.length_append, List.length_append, length_continuation, howed] at hlength
          simp at hlength
        · exact h.unfinished c hbegins

/-- Where no byte goes on with it, what was read is maximal. -/
theorem isMaximalPart (h : p.Stands) {rest : List UInt8}
    (hrest : ∀ b ∈ rest.head?, p.admits b = false) :
    IsMaximalPart p.bytes (p.bytes ++ rest) := by
  -- An encoding that begins in front of `rest` does not go beyond the bytes that were read.
  have hlongest : ∀ q c, q <+: p.bytes ++ rest → q <+: String.utf8EncodeChar c →
      q.length ≤ p.bytes.length := by
    intro q c hq hc
    by_contra hlt
    have hbytes : p.bytes <+: q :=
      List.prefix_of_prefix_length_le (List.prefix_append _ _) hq (by omega)
    obtain ⟨r, rfl⟩ := hbytes
    cases r with
    | nil => simp at hlt
    | cons b r =>
        rw [List.prefix_append_right_inj] at hq
        obtain ⟨s, rfl⟩ := hq
        refine h.not_prefix_of_not_admits (hrest b rfl) c (List.IsPrefix.trans ?_ hc)
        exact (List.prefix_append_right_inj _).mpr ⟨r, rfl⟩
  refine ⟨List.prefix_append _ _, ?_, ?_, hlongest⟩
  · intro c hc
    have hle := hlongest _ c hc (List.prefix_refl _)
    exact h.unfinished c (List.prefix_of_prefix_length_le hc (List.prefix_append _ _) hle)
  · exact .inl ⟨h.begun, h.exists_begun⟩

end Stands
end Pending

/-! ## The machine -/

/-- A byte that begins no encoding is a maximal part. -/
theorem isMaximalPart_stray {b : UInt8} (h : ∀ n k, ¬Leads n b.toNat k) (rest : List UInt8) :
    IsMaximalPart [b] ([b] ++ rest) := by
  have hfirst : ∀ q c, q <+: [b] ++ rest → q <+: String.utf8EncodeChar c → q = [] := by
    intro q c hq hc
    obtain ⟨b', k, hleads, hencode⟩ := exists_leads c
    cases q with
    | nil => rfl
    | cons x q =>
        rw [List.singleton_append, List.cons_prefix_cons] at hq
        rw [hencode, List.cons_prefix_cons] at hc
        rw [← hc.1, hq.1] at hleads
        exact absurd hleads (h _ _)
  refine ⟨List.prefix_append _ _, ?_, .inr rfl, ?_⟩
  · intro c hc
    exact String.utf8EncodeChar_ne_nil (hfirst _ c hc (List.prefix_refl _))
  · intro q c hq hc
    rw [hfirst q c hq hc]
    exact Nat.zero_le _

/-- The character of one byte is encoded in this byte. -/
theorem utf8EncodeChar_ofNat {b : UInt8} (h : b.toNat < 0x80) :
    String.utf8EncodeChar (Char.ofNat b.toNat) = [b] := by
  have hvalid : b.toNat.isValidChar := .inl (by omega)
  obtain ⟨b', k, hleads, hencode⟩ := exists_leads (Char.ofNat b.toNat)
  rw [toNat_ofNat hvalid] at hleads hencode
  obtain ⟨hb, rfl⟩ := (Leads.one h).unique hleads
  rw [hencode, ← UInt8.toNat_inj.mp hb]
  rfl

/-- What is read from the bytes is a split of them, together with those that were read before. -/
theorem splits_piecesFrom (bytes : List UInt8) :
    Splits bytes (piecesFrom none bytes) ∧
      ∀ p : Pending, p.Stands → Splits (p.bytes ++ bytes) (piecesFrom (some p) bytes) := by
  induction bytes with
  | nil =>
      refine ⟨.nil, fun p hp => ?_⟩
      exact .broken (hp.isMaximalPart (by simp)) .nil
  | cons b rest ih =>
      obtain ⟨hnone, hsome⟩ := ih
      have hlead : Splits (b :: rest) (piecesFrom none (b :: rest)) := by
        have hbegins := begins_lead b
        rw [piecesFrom]
        cases hpiece : lead b with
        | inl piece =>
            rw [hpiece] at hbegins
            cases hbegins with
            | char upper =>
                have hsplit := Splits.char (Char.ofNat b.toNat) hnone
                rwa [utf8EncodeChar_ofNat upper] at hsplit
            | stray no_first => exact .broken (isMaximalPart_stray no_first rest) hnone
        | inr p =>
            obtain ⟨hp, hbytes⟩ := Pending.stands_lead hpiece
            have hsplit := hsome p hp
            rwa [hbytes] at hsplit
      refine ⟨hlead, fun p hp => ?_⟩
      cases hb : p.admits b with
      | true =>
          rw [List.append_cons, piecesFrom, if_pos hb]
          cases hpush : p.push b with
          | inl piece =>
              obtain ⟨c, rfl, hencode⟩ := hp.push_char hb hpush
              rw [← hencode]
              exact .char c hnone
          | inr p' =>
              obtain ⟨hp', hbytes⟩ := hp.push_pending hb hpush
              rw [← hbytes]
              exact hsome p' hp'
      | false =>
          -- The byte ends the encoding and is read again as a first byte.
          have hmaximal : IsMaximalPart p.bytes (p.bytes ++ b :: rest) :=
            hp.isMaximalPart (by simpa using hb)
          have hpieces : piecesFrom (some p) (b :: rest) =
              .broken p.bytes :: piecesFrom none (b :: rest) := by
            simp [piecesFrom, hb]
          rw [hpieces]
          exact .broken hmaximal hlead

/-- The pieces of a byte sequence are its split. -/
theorem splits_iff {bytes : List UInt8} {ps : List Piece} :
    Splits bytes ps ↔ pieces bytes = ps := by
  have hpieces : Splits bytes (pieces bytes) := (splits_piecesFrom bytes).1
  constructor
  · intro h
    exact hpieces.unique h
  · rintro rfl
    exact hpieces

end MutationInput.Text
