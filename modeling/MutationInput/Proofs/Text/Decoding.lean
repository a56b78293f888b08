import MutationInput.Files
import MutationInput.Proofs.Text.Pieces

/-!
# Strict and lenient decoding

A file is read strictly, and the bytes of a document's value leniently. Both give the text that is
encoded, when the bytes are an encoded text; otherwise the file is refused and U+FFFD stands in the
value for each maximal part that belongs to no character: `bytes_decoded`.
-/
namespace MutationInput

namespace Text

theorem mapM_char?_eq_some_iff {ps : List Piece} {cs : List Char} :
    ps.mapM Piece.char? = some cs ↔ ps = cs.map .char := by
  induction ps generalizing cs with
  | nil => simp [eq_comm]
  | cons p ps ih =>
      cases p with
      | char c =>
          cases cs <;> simp [List.mapM_cons, Piece.char?, Option.bind_eq_some_iff, ih, and_comm]
      | broken bytes => cases cs <;> simp [List.mapM_cons, Piece.char?]

/-- Without a broken piece, the pieces are characters. -/
theorem exists_eq_map_char {ps : List Piece} (h : ∀ part, .broken part ∉ ps) :
    ∃ cs : List Char, ps = cs.map .char := by
  induction ps with
  | nil => exact ⟨[], rfl⟩
  | cons p ps ih =>
      obtain ⟨cs, rfl⟩ := ih fun part hpart => h part (List.mem_cons_of_mem _ hpart)
      cases p with
      | char c => exact ⟨c :: cs, rfl⟩
      | broken part => exact absurd List.mem_cons_self (h part)

/-- The pieces of an encoded text are its characters. -/
@[simp] theorem pieces_encode (s : String) : pieces (encode s) = ofString s :=
  splits_iff.mp (splits_encode s)

/-- The bytes are an encoded text exactly if no part of their split is broken. -/
theorem encode_eq_iff {bytes : List UInt8} {s : String} :
    encode s = bytes ↔ pieces bytes = s.toList.map .char := by
  constructor
  · rintro rfl
    exact pieces_encode s
  · intro h
    rw [(splits_iff.mpr h).bytes_eq, encode, List.flatMap_map]
    rfl

/-- Strict decoding undoes encoding and accepts nothing else. -/
theorem decode?_eq_some_iff {bytes : List UInt8} {s : String} :
    decode? bytes = some s ↔ encode s = bytes := by
  rw [encode_eq_iff, ← mapM_char?_eq_some_iff, decode?, Option.map_eq_some_iff]
  constructor
  · rintro ⟨cs, hcs, rfl⟩
    rwa [String.toList_ofList]
  · intro h
    exact ⟨_, h, String.ofList_toList⟩

theorem decode?_eq_none_iff {bytes : List UInt8} :
    decode? bytes = none ↔ ∀ s, encode s ≠ bytes := by
  simp only [Option.eq_none_iff_forall_ne_some, ne_eq, decode?_eq_some_iff]

/-- Bytes that are no encoded text have a broken piece. -/
theorem exists_broken_mem_pieces {bytes : List UInt8} (h : ∀ s, encode s ≠ bytes) :
    ∃ part, .broken part ∈ pieces bytes := by
  by_contra hpieces
  obtain ⟨cs, hcs⟩ := exists_eq_map_char (not_exists.mp hpieces)
  apply h (String.ofList cs)
  rw [encode_eq_iff, hcs, String.toList_ofList]

/-- Lenient decoding undoes encoding as well. -/
theorem decodeLossy_encode (s : String) : decodeLossy (encode s) = s := by
  have hreplaced : Piece.orReplacement ∘ Piece.char = id := rfl
  rw [decodeLossy, encode_eq_iff.mp rfl, List.map_map, hreplaced, List.map_id, String.ofList_toList]

end Text

namespace FileSystem

variable {files : FileSystem} {path : String} {bytes : List UInt8}

theorem readText_eq_ok {s : String} (h : files path = .content bytes)
    (hs : Text.encode s = bytes) : files.readText path = .ok s := by
  rw [readText, h]
  simp only [Text.decode?_eq_some_iff.mpr hs]

theorem readText_eq_error (h : files path = .content bytes) (hs : ∀ s, Text.encode s ≠ bytes) :
    files.readText path = .error (.notUtf8 path) := by
  rw [readText, h]
  simp only [Text.decode?_eq_none_iff.mpr hs]

end FileSystem

open Text

/-- The bytes of an encoded text are this text, in a file and in a value. All others are refused in
a file; in a value they are the characters of their only split, with U+FFFD for each part that
belongs to no character. -/
theorem bytes_decoded (bytes : List UInt8) :
    (∀ s, encode s = bytes →
      (∀ files path, files path = .content bytes → FileSystem.readText files path = .ok s) ∧
        Value.ofLiteral (.bytes bytes) = .string s) ∧
    ((∀ s, encode s ≠ bytes) →
      (∀ files path, files path = .content bytes →
        FileSystem.readText files path = .error (.notUtf8 path)) ∧
      ∃ ps, (∀ ps', Splits bytes ps' ↔ ps' = ps) ∧ (∃ part, .broken part ∈ ps) ∧
        Value.ofLiteral (.bytes bytes) = .string (String.ofList (ps.map Piece.orReplacement))) := by
  refine ⟨fun s hs => ⟨fun _ _ h => FileSystem.readText_eq_ok h hs, ?_⟩,
    fun hs => ⟨fun _ _ h => FileSystem.readText_eq_error h hs, pieces bytes, ?_, ?_, ?_⟩⟩
  · rw [← hs, Value.ofLiteral, decodeLossy_encode]
  · intro ps
    rw [splits_iff, eq_comm]
  · exact exists_broken_mem_pieces hs
  · rw [Value.ofLiteral, decodeLossy]

/-- Two characters encoded in full, and two encodings broken off between characters. -/
theorem bytes_decoded_examples :
    Value.ofLiteral (.bytes [0xC3, 0xA9, 0xE2, 0x82, 0xAC]) = .string "é€" ∧
      FileSystem.readText (fun _ => .content [0x61, 0xE2, 0x82, 0xF0, 0x9F, 0x98, 0x62]) "a.txt" =
        .error (.notUtf8 "a.txt") ∧
      Value.ofLiteral (.bytes [0x61, 0xE2, 0x82, 0xF0, 0x9F, 0x98, 0x62]) =
        .string "a\uFFFD\uFFFDb" := by
  refine ⟨((bytes_decoded _).1 "é€" (by decide)).2, ?_⟩
  have hbroken : ∀ s, Text.encode s ≠ [0x61, 0xE2, 0x82, 0xF0, 0x9F, 0x98, 0x62] :=
    Text.decode?_eq_none_iff.mp (by decide)
  have hsplits : Text.Splits [0x61, 0xE2, 0x82, 0xF0, 0x9F, 0x98, 0x62]
      [.char 'a', .broken [0xE2, 0x82], .broken [0xF0, 0x9F, 0x98], .char 'b'] :=
    Text.splits_iff.mpr (by decide)
  obtain ⟨hfile, ps, hunique, -, hvalue⟩ := (bytes_decoded _).2 hbroken
  refine ⟨hfile _ _ rfl, hvalue.trans ?_⟩
  rw [← (hunique _).mp hsplits]
  rfl

end MutationInput
