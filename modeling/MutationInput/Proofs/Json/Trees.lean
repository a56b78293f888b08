import MutationInput.Proofs.Json.Containers
import MutationInput.Proofs.Json.Members
import MutationInput.Proofs.Steps

/-!
# Values as they are written

The reader gives every object sorted, with each name once. `readTree` reads a text as the reader
does and leaves the members of an object as they are written; sorting them gives what the reader
gives, `readValue_eq`.
-/
namespace MutationInput.Json

open Text (Piece)

/-! ## The loops over items and members, as relations -/

section Loops

variable {α : Type}

/-- Items separated by commas stand before a closing bracket and are read one after the other. -/
inductive Items (item : Source → Except Fault (α × Source)) :
    Source → List α → Source → Prop where
  | last {s s' rest : Source} {x : α} (read : item s = .ok (x, s'))
      (close : skipGap s' = .char ']' :: rest) : Items item s [x] rest
  | comma {s s' s'' rest : Source} {x : α} {xs : List α} (read : item s = .ok (x, s'))
      (comma : skipGap s' = .char ',' :: s'') (more : skipGap s'' ≠ [])
      (another : ∀ t, skipGap s'' ≠ .char ']' :: t) (tail : Items item (skipGap s'') xs rest) :
      Items item s (x :: xs) rest

/-- Behind an item stands the closing bracket, or a comma and further items. -/
def Behind (item : Source → Except Fault (α × Source)) (s : Source) (xs : List α) (rest : Source) :
    Prop :=
  xs = [] ∧ skipGap s = .char ']' :: rest ∨
    ∃ t, skipGap s = .char ',' :: t ∧ skipGap t ≠ [] ∧ (∀ t', skipGap t ≠ .char ']' :: t') ∧
      Items item (skipGap t) xs rest

theorem Items.exists_behind {item : Source → Except Fault (α × Source)} {s rest : Source}
    {xs : List α} (h : Items item s xs rest) :
    ∃ x xs' s', xs = x :: xs' ∧ item s = .ok (x, s') ∧ Behind item s' xs' rest := by
  cases h with
  | last read close => exact ⟨_, _, _, rfl, read, .inl ⟨rfl, close⟩⟩
  | comma read comma more another tail =>
      exact ⟨_, _, _, rfl, read, .inr ⟨_, comma, more, another, tail⟩⟩

/-- Members separated by commas stand before a closing brace, and each name and value is read one
after the other. The quote of the first name is already read. -/
inductive Entries (value : Source → Except Fault (α × Source)) :
    Source → List (String × α) → Source → Prop where
  | last {s s' s'' rest : Source} {k : String} {x : α} (name : readString s = .ok (k, s'))
      (read : expectColon s' >>= value = .ok (x, s''))
      (close : skipGap s'' = .char '\x7d' :: rest) : Entries value s [(k, x)] rest
  | comma {s s' s'' more next rest : Source} {k : String} {x : α} {es : List (String × α)}
      (name : readString s = .ok (k, s')) (read : expectColon s' >>= value = .ok (x, s''))
      (comma : skipGap s'' = .char ',' :: more) (quote : skipGap more = .char '"' :: next)
      (tail : Entries value next es rest) : Entries value s ((k, x) :: es) rest

theorem items_of_readItems {item : Source → Except Fault (α × Source)} {fuel : Nat}
    {s rest : Source} {xs : List α} (h : readItems item fuel s = .ok (xs, rest)) :
    Items item s xs rest ∧ xs.length ≤ fuel := by
  induction fuel generalizing s xs with
  | zero => cases h
  | succ fuel ih =>
      obtain ⟨⟨x, s'⟩, hx, hmore⟩ := bind_eq_ok_iff.mp h
      dsimp only at hmore
      split at hmore
      · cases hmore
      · next hclose =>
          cases hmore
          exact ⟨.last hx hclose, Nat.le_add_left 1 fuel⟩
      · next hcomma =>
          split at hmore
          · cases hmore
          · cases hmore
          · next hempty hbracket =>
              obtain ⟨⟨xs', s'''⟩, hxs, hrest⟩ := bind_eq_ok_iff.mp hmore
              cases hrest
              obtain ⟨htail, hlength⟩ := ih hxs
              exact ⟨.comma hx hcomma hempty hbracket htail, Nat.succ_le_succ hlength⟩
      · cases hmore

theorem entries_of_readMembers {value : Source → Except Fault (α × Source)} {fuel : Nat}
    {s rest : Source} {before after : List (String × α)}
    (h : readMembers readString (addEntry value) fuel before s = .ok (after, rest)) :
    ∃ es, Entries value s es rest ∧ after = es.reverse ++ before ∧ es.length ≤ fuel := by
  induction fuel generalizing s before with
  | zero => cases h
  | succ fuel ih =>
      obtain ⟨⟨k, s'⟩, hname, hmember⟩ := bind_eq_ok_iff.mp h
      obtain ⟨⟨acc, s''⟩, hadd, hmore⟩ := bind_eq_ok_iff.mp hmember
      obtain ⟨t, hcolon, hvalue⟩ := bind_eq_ok_iff.mp hadd
      obtain ⟨⟨x, t'⟩, hx, hacc⟩ := bind_eq_ok_iff.mp hvalue
      cases hacc
      have hread : expectColon s' >>= value = .ok (x, s'') := bind_eq_ok_iff.mpr ⟨t, hcolon, hx⟩
      dsimp only at hmore
      split at hmore
      · cases hmore
      · next hclose =>
          cases hmore
          exact ⟨[(k, x)], .last hname hread hclose, rfl, Nat.le_add_left 1 fuel⟩
      · next hcomma =>
          split at hmore
          · cases hmore
          · next hquote =>
              obtain ⟨es, htail, rfl, hlength⟩ := ih hmore
              refine ⟨(k, x) :: es, .comma hname hread hcomma hquote htail, ?_,
                Nat.succ_le_succ hlength⟩
              simp
          · cases hmore
      · cases hmore

/-! ### What the loops do with an image of each value -/

variable {β : Type} (f : α → β)

/-- What a reader reads, with the value replaced by its image. -/
def imageReader (read : Source → Except Fault (α × Source)) (s : Source) :
    Except Fault (β × Source) :=
  (read s).map fun r => (f r.1, r.2)

theorem readItems_image (item : Source → Except Fault (α × Source)) (fuel : Nat) (s : Source) :
    readItems (imageReader f item) fuel s = imageReader (List.map f) (readItems item fuel) s := by
  induction fuel generalizing s with
  | zero => rfl
  | succ fuel ih =>
      simp only [readItems, imageReader]
      cases item s with
      | error fault => rfl
      | ok r =>
          simp only [Except.map, bind, Except.bind]
          split
          · rfl
          · rfl
          · split
            · rfl
            · rfl
            · simp only [ih, imageReader]
              cases readItems item fuel _ <;> rfl
          · rfl

theorem readArray_image (item : Source → Except Fault (α × Source)) (s : Source) :
    readArray (imageReader f item) s = imageReader (List.map f) (readArray item) s := by
  simp only [readArray, imageReader, readItems_image]
  split <;> rfl

theorem readMembers_image (value : Source → Except Fault (α × Source)) (fuel : Nat)
    (before : List (String × α)) (s : Source) :
    readMembers readString (addEntry (imageReader f value)) fuel
        (before.map fun e => (e.1, f e.2)) s =
      imageReader (List.map fun e => (e.1, f e.2))
        (readMembers readString (addEntry value) fuel before) s := by
  induction fuel generalizing s before with
  | zero => rfl
  | succ fuel ih =>
      simp only [readMembers, addEntry, imageReader, bind, Except.bind]
      cases readString s with
      | error fault => rfl
      | ok r =>
          dsimp only
          cases expectColon r.2 with
          | error fault => rfl
          | ok t =>
              dsimp only
              cases value t with
              | error fault => rfl
              | ok r' =>
                  dsimp only [Except.map, pure, Except.pure]
                  split
                  · rfl
                  · rfl
                  · split
                    · rfl
                    · exact ih ((r.1, r'.1) :: before) _
                    · rfl
                  · rfl

theorem readEntries_image (value : Source → Except Fault (α × Source)) (s : Source) :
    readEntries (imageReader f value) s =
      imageReader (List.map fun e => (e.1, f e.2)) (readEntries value) s := by
  have hobject : readObject readString (addEntry (imageReader f value)) [] s =
      imageReader (List.map fun e => (e.1, f e.2)) (readObject readString (addEntry value) [])
        s := by
    simp only [readObject, imageReader]
    split
    · rfl
    · rfl
    · exact readMembers_image f value _ [] _
    · rfl
  change (readObject readString (addEntry (imageReader f value)) [] s >>= _) =
    (readObject readString (addEntry value) [] s >>= _).map _
  rw [hobject, imageReader]
  cases readObject readString (addEntry value) [] s with
  | error fault => rfl
  | ok r => simp [Except.map, bind, Except.bind, pure, Except.pure]

end Loops

/-! ## Reading a value as it is written -/

/-- The value at the front of a text, the members of objects as they are written. -/
def readTreeWith (nested : Option (Source → Except Fault (Json × Source))) (s : Source) :
    Except Fault (Json × Source) :=
  match skipGap s with
  | .char '[' :: s =>
    match nested with
    | none => .error .malformed
    | some tree => (readArray tree s).map fun r => (.array r.1, r.2)
  | .char '\x7b' :: s =>
    match nested with
    | none => .error .malformed
    | some tree => (readEntries tree s).map fun r => (.object r.1, r.2)
  | s => readValueWith none s

/-- The value at the front of a text as it is written, with at most `depth` containers inside one
another. -/
def readTree : Nat → Source → Except Fault (Json × Source)
  | 0 => readTreeWith none
  | depth + 1 => readTreeWith (some (readTree depth))

/-- A value that is neither an array nor an object. -/
def IsScalar : Json → Prop
  | .array _ => False
  | .object _ => False
  | _ => True

theorem canonical_of_isScalar {j : Json} (h : j.IsScalar) : j.canonical = j := by
  cases j <;> first | rfl | exact h.elim

theorem skipGap_skipGap (s : Source) : skipGap (skipGap s) = skipGap s := by
  fun_induction skipGap s with
  | case1 c rest hgap ih => exact ih
  | case2 c rest hgap => rw [skipGap, if_neg hgap]
  | case3 s hs =>
      unfold skipGap
      split
      · next c rest => exact absurd rfl (hs c rest)
      · rfl

/-- What stands at the front of a text that is read as it is written: a scalar, or the bracket or
brace of an array or object and what is inside it. -/
inductive TreeAt : Nat → Source → Json → Source → Prop where
  | scalar {d : Nat} {s rest : Source} {j : Json} (no_array : ∀ t, skipGap s ≠ .char '[' :: t)
      (no_object : ∀ t, skipGap s ≠ .char '\x7b' :: t) (is_scalar : j.IsScalar)
      (read : readValueWith none (skipGap s) = .ok (j, rest)) : TreeAt d s j rest
  | array {d : Nat} {s t rest : Source} {items : List Json} (bracket : skipGap s = .char '[' :: t)
      (read : readArray (readTree d) t = .ok (items, rest)) : TreeAt (d + 1) s (.array items) rest
  | object {d : Nat} {s t rest : Source} {members : List (String × Json)}
      (brace : skipGap s = .char '\x7b' :: t)
      (read : readEntries (readTree d) t = .ok (members, rest)) :
      TreeAt (d + 1) s (.object members) rest

theorem isScalar_of_readValueWith {s rest : Source} {j : Json}
    (h : readValueWith none s = .ok (j, rest)) : j.IsScalar := by
  unfold readValueWith at h
  split at h <;> (try split at h) <;> first
    | cases h
    | obtain ⟨_, _, h⟩ := map_eq_ok_iff.mp h
      cases h
      trivial

theorem treeAt_of_readTree {d : Nat} {s rest : Source} {j : Json}
    (h : readTree d s = .ok (j, rest)) : TreeAt d s j rest := by
  cases d with
  | zero =>
      simp only [readTree, readTreeWith] at h
      split at h
      · cases h
      · cases h
      · next no_array no_object =>
          exact .scalar no_array no_object (isScalar_of_readValueWith h) h
  | succ d =>
      simp only [readTree, readTreeWith] at h
      split at h
      · next bracket =>
          obtain ⟨⟨items, rest'⟩, hitems, hj⟩ := map_eq_ok_iff.mp h
          cases hj
          exact .array bracket hitems
      · next brace =>
          obtain ⟨⟨members, rest'⟩, hmembers, hj⟩ := map_eq_ok_iff.mp h
          cases hj
          exact .object brace hmembers
      · next no_array no_object =>
          exact .scalar no_array no_object (isScalar_of_readValueWith h) h

theorem readTree_skipGap (d : Nat) (s : Source) : readTree d (skipGap s) = readTree d s := by
  cases d <;> simp only [readTree, readTreeWith, skipGap_skipGap]

/-- A scalar is read alike whatever may be opened. -/
theorem readValueWith_of_scalar (nested : Option (Source → Except Fault (Json × Source)))
    {s : Source} (no_array : ∀ t, skipGap s ≠ .char '[' :: t)
    (no_object : ∀ t, skipGap s ≠ .char '\x7b' :: t) :
    readValueWith nested s = readValueWith none (skipGap s) := by
  simp only [readValueWith, skipGap_skipGap]
  split
  · rfl
  · rfl
  · rfl
  · rfl
  · rfl
  · rfl
  · next h => exact absurd h (no_array _)
  · next h => exact absurd h (no_object _)
  · rfl
  · rfl

/-- The reader gives the value as it is written, with its objects sorted. -/
theorem readValue_eq (d : Nat) : readValue d = imageReader canonical (readTree d) := by
  have hscalar : ∀ s, imageReader canonical (readValueWith none) s = readValueWith none s := by
    intro s
    simp only [imageReader]
    cases hread : readValueWith none s with
    | error fault => rfl
    | ok r => simp [Except.map, canonical_of_isScalar (isScalar_of_readValueWith hread)]
  induction d with
  | zero =>
      funext s
      simp only [readValue, readTree, imageReader, readTreeWith]
      split
      · next h => simp [readValueWith, h, Except.map]
      · next h => simp [readValueWith, h, Except.map]
      · next no_array no_object =>
          rw [readValueWith_of_scalar none no_array no_object]
          exact (hscalar _).symm
  | succ d ih =>
      funext s
      simp only [readValue, readTree, imageReader, readTreeWith]
      split
      · next h =>
          simp only [readValueWith, h, ih, readArray_image, imageReader]
          cases readArray (readTree d) _ <;> simp [Except.map, canonical, canonicalItems_eq_map]
      · next h =>
          simp only [readValueWith, h, ih, readEntries_image, imageReader]
          cases readEntries (readTree d) _ <;> simp [Except.map, canonical, canonicalMembers_eq_map]
      · next no_array no_object =>
          rw [readValueWith_of_scalar _ no_array no_object]
          exact (hscalar _).symm

end MutationInput.Json
