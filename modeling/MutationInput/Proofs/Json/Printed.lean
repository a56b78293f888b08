import MutationInput.Proofs.Json.Faithful

/-!
# Reading printed values

What the printer writes for a value, on one line or spread over lines, stands there as it was
written, if the numbers in it are integers of 64 bits and it does not nest deeper than the reader
allows: `reads_print_readTree`. So the reader gives the value with its objects sorted,
`reads_print`. The entries of an object are also decoded in the order in which they were written:
`Decoder.reads_entries`.
-/
namespace MutationInput.Json

/-- Every number in a value is an integer of 64 bits. -/
inductive HasWholeNumbers : Json → Prop where
  | null : HasWholeNumbers .null
  | bool (b : Bool) : HasWholeNumbers (.bool b)
  | number {n : Number} (whole : n.IsWhole) : HasWholeNumbers (.number n)
  | string (s : String) : HasWholeNumbers (.string s)
  | array {items : List Json} (whole : ∀ j ∈ items, HasWholeNumbers j) :
      HasWholeNumbers (.array items)
  | object {members : List (String × Json)} (whole : ∀ e ∈ members, HasWholeNumbers e.2) :
      HasWholeNumbers (.object members)

attribute [simp] HasWholeNumbers.null HasWholeNumbers.bool HasWholeNumbers.string

@[simp] theorem hasWholeNumbers_number_iff {n : Number} :
    (number n).HasWholeNumbers ↔ n.IsWhole := by
  constructor
  · intro h
    cases h
    assumption
  · exact .number

@[simp] theorem hasWholeNumbers_array_iff {items : List Json} :
    (array items).HasWholeNumbers ↔ ∀ j ∈ items, j.HasWholeNumbers := by
  constructor
  · intro h
    cases h
    assumption
  · exact .array

@[simp] theorem hasWholeNumbers_object_iff {members : List (String × Json)} :
    (object members).HasWholeNumbers ↔ ∀ e ∈ members, e.2.HasWholeNumbers := by
  constructor
  · intro h
    cases h
    assumption
  · exact .object

theorem printItems_eq_flatMap (level : Option Nat) (items : List Json) :
    printItems level items = items.flatMap fun j => ',' :: (lineBreak level ++ j.print level) := by
  induction items with
  | nil => rfl
  | cons j items ih => simp [printItems, ih]

theorem printMembers_eq_flatMap (level : Option Nat) (members : List (String × Json)) :
    printMembers level members = members.flatMap fun e =>
      ',' :: (lineBreak level ++ printString e.1 ++ ':' :: (gap level ++ e.2.print level)) := by
  induction members with
  | nil => rfl
  | cons e members ih => simp [printMembers, ih]

theorem depth_le_depthItems {j : Json} {items : List Json} (h : j ∈ items) :
    j.depth ≤ depthItems items := by
  induction items with
  | nil => cases h
  | cons j' items ih =>
      rw [depthItems]
      rcases List.mem_cons.mp h with rfl | h
      · exact Nat.le_max_left _ _
      · exact Nat.le_trans (ih h) (Nat.le_max_right _ _)

theorem depth_le_depthMembers {e : String × Json} {members : List (String × Json)}
    (h : e ∈ members) : e.2.depth ≤ depthMembers members := by
  induction members with
  | nil => cases h
  | cons e' members ih =>
      rw [depthMembers]
      rcases List.mem_cons.mp h with rfl | h
      · exact Nat.le_max_left _ _
      · exact Nat.le_trans (ih h) (Nat.le_max_right _ _)

theorem isGap_of_mem_lineBreak {level : Option Nat} {c : Char} (h : c ∈ lineBreak level) :
    isGap c = true := by
  cases level with
  | none => cases h
  | some level =>
      rcases List.mem_cons.mp h with rfl | h
      · rfl
      · rw [List.eq_of_mem_replicate h]
        rfl

theorem isGap_of_mem_gap {level : Option Nat} {c : Char} (h : c ∈ gap level) : isGap c = true := by
  cases level with
  | none => cases h
  | some level =>
      rw [List.mem_singleton.mp h]
      rfl

/-! ### How a printed value begins -/

theorem isGap_of_isDigit {c : Char} (h : c.isDigit = true) : isGap c = false := by
  by_contra hc
  simp only [Bool.not_eq_false, isGap, Bool.or_eq_true, beq_iff_eq] at hc
  obtain ((rfl | rfl) | rfl) | rfl := hc <;> exact absurd h (by decide)

/-- The decimal text of a number begins with a digit. -/
theorem exists_digit_cons (n : Nat) :
    ∃ c rest, Nat.toDigits 10 n = c :: rest ∧ c.isDigit = true := by
  obtain ⟨c, rest, h⟩ := List.exists_cons_of_ne_nil (Nat.toDigits_ne_nil (n := n) (b := 10))
  exact ⟨c, rest, h, Nat.isDigit_of_mem_toDigits (by decide) (by decide) (h ▸ List.mem_cons_self)⟩

theorem opens_print {j : Json} (h : j.HasWholeNumbers) (level : Option Nat) :
    Opens (j.print level) := by
  cases h with
  | null => exact ⟨_, _, rfl, rfl, by decide⟩
  | bool b => cases b <;> exact ⟨_, _, rfl, rfl, by decide⟩
  | @number n whole =>
      cases n with
      | float x => exact whole.elim
      | integer n =>
          cases n with
          | ofNat n =>
              obtain ⟨c, rest, htext, hc⟩ := exists_digit_cons n
              refine ⟨c, rest, htext, isGap_of_isDigit hc, ?_⟩
              rintro rfl
              exact absurd hc (by decide)
          | negSucc n => exact ⟨_, _, rfl, rfl, by decide⟩
  | string s => exact ⟨_, _, rfl, rfl, by decide⟩
  | @array items _ => cases items <;> exact ⟨_, _, rfl, rfl, by decide⟩
  | @object members _ => cases members <;> exact ⟨_, _, rfl, rfl, by decide⟩

/-! ### Reading a printed value -/

/-- Blanks before a value do not matter. -/
theorem reads_readTree {d : Nat} {text : List Char} {x : Json}
    (h : ∀ s, Ends s → readTree d (source text ++ s) = .ok (x, s)) :
    Reads (readTree d) text x := by
  intro blanks s hblanks hs
  rw [← readTree_skipGap, skipGap_source hblanks, readTree_skipGap]
  exact h s hs

theorem readValueWith_digit {nested : Option (Source → Except Fault (Json × Source))} {c : Char}
    (hc : c.isDigit = true) (s : Source) :
    readValueWith nested (.char c :: s) =
      (readNumber false (.char c :: s)).map fun r => (.number r.1, r.2) := by
  simp only [readValueWith, skipGap_char (isGap_of_isDigit hc)]
  split
  · next h => cases h
  iterate 7
    · next h =>
        cases h
        exact absurd hc (by decide)
  · next h =>
      cases h
      exact if_pos hc
  · next h => cases h

/-- The text of an integer of 64 bits is read as the integer. -/
theorem readValueWith_integer {nested : Option (Source → Except Fault (Json × Source))} {n : Int}
    (hn : (Number.integer n).IsWhole) {s : Source} (hs : Ends s) :
    readValueWith nested (source (Number.integer n).text ++ s) = .ok (.number (.integer n), s) := by
  obtain ⟨hlow, hhigh⟩ := hn
  cases n with
  | ofNat n =>
      obtain ⟨c, rest, htext, hc⟩ := exists_digit_cons n
      have hread := readNumber_toDigits (Int.ofNat_lt.mp hhigh) hs
      simp only [Number.text, htext, source_cons, List.cons_append] at hread ⊢
      rw [readValueWith_digit hc, hread]
      rfl
  | negSucc n =>
      have hn : n + 1 ≤ Number.signedBound := by omega
      have hread := readNumber_negative (Nat.succ_pos n) hn hs
      change (readNumber true (source (Nat.toDigits 10 (n + 1)) ++ s)).map _ = _
      rw [hread]
      rfl

theorem readTree_bracket (d : Nat) (s : Source) :
    readTree (d + 1) (.char '[' :: s) =
      (readArray (readTree d) s).map fun r => (.array r.1, r.2) := rfl

theorem readTree_brace (d : Nat) (s : Source) :
    readTree (d + 1) (.char '\x7b' :: s) =
      (readEntries (readTree d) s).map fun r => (.object r.1, r.2) := rfl

/-- What opens neither an array nor an object is read as the reader does. -/
theorem readTree_char {d : Nat} {c : Char} (hgap : isGap c = false) (harray : c ≠ '[')
    (hobject : c ≠ '\x7b') (s : Source) :
    readTree d (.char c :: s) = readValueWith none (.char c :: s) := by
  have htree : ∀ nested,
      readTreeWith nested (.char c :: s) = readValueWith none (.char c :: s) := by
    intro nested
    simp only [readTreeWith, skipGap_char hgap]
    split
    · next h =>
        cases h
        exact absurd rfl harray
    · next h =>
        cases h
        exact absurd rfl hobject
    · rfl
  cases d <;> exact htree _

/-- The text of an integer of 64 bits stands for the integer, whatever may be opened. -/
theorem readTree_integer {d : Nat} {n : Int} (hn : (Number.integer n).IsWhole) {s : Source}
    (hs : Ends s) :
    readTree d (source (Number.integer n).text ++ s) = .ok (.number (.integer n), s) := by
  have hread : readValueWith none (source (Number.integer n).text ++ s) =
      .ok (.number (.integer n), s) := readValueWith_integer hn hs
  cases n with
  | ofNat n =>
      obtain ⟨c, rest, htext, hc⟩ := exists_digit_cons n
      have hmark : ∀ m : Char, m.isDigit = false → c ≠ m := by
        intro m hm h
        rw [← h, hc] at hm
        cases hm
      simp only [Number.text, htext, source_cons, List.cons_append] at hread ⊢
      rw [readTree_char (isGap_of_isDigit hc) (hmark '[' rfl) (hmark '\x7b' rfl), hread]
  | negSucc n => exact (readTree_char rfl (by decide) (by decide) _).trans hread

/-- The entries of a printed object are read in the order in which they were written. -/
theorem readEntries_print {α : Type} {value : Source → Except Fault (α × Source)}
    {f : Json → α} (level : Option Nat) {k : String} {j : Json} {members : List (String × Json)}
    (hread : ∀ e ∈ (k, j) :: members,
      Reads value (e.2.print (level.map (· + 1))) (f e.2)) (s : Source) :
    ∃ rest, (Json.object ((k, j) :: members)).print level = '\x7b' :: rest ∧
      readEntries value (source rest ++ s) =
        .ok (((k, j) :: members).map fun e => (e.1, f e.2), s) := by
  let inner := level.map (· + 1)
  have hmore : ∀ e ∈ members.map fun e => (e.1, e.2.print inner, f e.2),
      Reads value e.2.1 e.2.2 := by
    intro e he
    obtain ⟨e', he', rfl⟩ := List.mem_map.mp he
    exact hread e' (List.mem_cons_of_mem _ he')
  have hentries := readEntries_printed (lineBreak inner) (gap inner) (lineBreak level)
    (fun _ => isGap_of_mem_lineBreak) (fun _ => isGap_of_mem_gap) (fun _ => isGap_of_mem_lineBreak)
    hmore k (hread (k, j) List.mem_cons_self) s
  refine ⟨_, rfl, ?_⟩
  simp only [moreMembers, List.flatMap_map, List.map_map, Function.comp_def] at hentries
  simpa [printMembers_eq_flatMap, printString_eq, inner] using hentries

/-- The items of a printed array are read one after the other. -/
theorem readArray_print {α : Type} {item : Source → Except Fault (α × Source)} {f : Json → α}
    (level : Option Nat) {j : Json} {items : List Json}
    (hread : ∀ j' ∈ j :: items, Opens (j'.print (level.map (· + 1))) ∧
      Reads item (j'.print (level.map (· + 1))) (f j')) (s : Source) :
    ∃ rest, (Json.array (j :: items)).print level = '[' :: rest ∧
      readArray item (source rest ++ s) = .ok ((j :: items).map f, s) := by
  let inner := level.map (· + 1)
  have hmore : ∀ e ∈ items.map fun j' => (j'.print inner, f j'),
      Opens e.1 ∧ Reads item e.1 e.2 := by
    intro e he
    obtain ⟨j', hj', rfl⟩ := List.mem_map.mp he
    exact hread j' (List.mem_cons_of_mem _ hj')
  obtain ⟨hopens, hj⟩ := hread j List.mem_cons_self
  have harray := readArray_printed (lineBreak inner) (lineBreak level)
    (fun _ => isGap_of_mem_lineBreak) (fun _ => isGap_of_mem_lineBreak) hmore hopens hj s
  refine ⟨_, rfl, ?_⟩
  simp only [List.flatMap_map, List.map_map, Function.comp_def] at harray
  simpa [printItems_eq_flatMap, inner] using harray

/-- A printed value stands in its text as it was written, if its numbers are integers of 64 bits and
no more arrays and objects stand inside one another in it than may be opened. -/
theorem reads_print_readTree {j : Json} (h : j.HasWholeNumbers) (level : Option Nat) {d : Nat}
    (hd : j.depth ≤ d) : Reads (readTree d) (j.print level) j := by
  induction h generalizing level d with
  | null =>
      refine reads_readTree fun s _ => ?_
      cases d <;> rfl
  | bool b =>
      refine reads_readTree fun s _ => ?_
      cases d <;> cases b <;> rfl
  | @number n whole =>
      refine reads_readTree fun s hs => ?_
      cases n with
      | float x => exact whole.elim
      | integer n => exact readTree_integer whole hs
  | string t =>
      refine reads_readTree fun s _ => ?_
      have hread : (readString (source (quotedRest t) ++ s)).map
          (fun r => (Json.string r.1, r.2)) = .ok (.string t, s) := by
        rw [readString_quotedRest]
        rfl
      cases d <;> exact hread
  | @array items whole ih =>
      obtain ⟨d, rfl⟩ := Nat.exists_eq_add_one_of_ne_zero (Nat.ne_zero_of_lt hd)
      have hdepth : depthItems items ≤ d := Nat.le_of_succ_le_succ hd
      refine reads_readTree fun s _ => ?_
      cases items with
      | nil => rfl
      | cons j items =>
          have hread : ∀ j' ∈ j :: items, Opens (j'.print (level.map (· + 1))) ∧
              Reads (readTree d) (j'.print (level.map (· + 1))) (id j') :=
            fun j' hj' => ⟨opens_print (whole j' hj') _,
              ih j' hj' _ (Nat.le_trans (depth_le_depthItems hj') hdepth)⟩
          obtain ⟨rest, htext, harray⟩ := readArray_print level hread s
          rw [htext, source_cons, List.cons_append, readTree_bracket, harray, List.map_id]
          rfl
  | @object members whole ih =>
      obtain ⟨d, rfl⟩ := Nat.exists_eq_add_one_of_ne_zero (Nat.ne_zero_of_lt hd)
      have hdepth : depthMembers members ≤ d := Nat.le_of_succ_le_succ hd
      refine reads_readTree fun s _ => ?_
      cases members with
      | nil => rfl
      | cons e members =>
          have hread : ∀ e' ∈ e :: members,
              Reads (readTree d) (e'.2.print (level.map (· + 1))) (id e'.2) :=
            fun e' he' => ih e' he' _ (Nat.le_trans (depth_le_depthMembers he') hdepth)
          obtain ⟨rest, htext, hentries⟩ := readEntries_print level hread s
          rw [htext, source_cons, List.cons_append, readTree_brace, hentries]
          exact congrArg (fun ms => Except.ok (Json.object ms, s)) (List.map_id _)

/-- A printed value is read back with its objects sorted. -/
theorem reads_print {j : Json} (h : j.HasWholeNumbers) (level : Option Nat) {d : Nat}
    (hd : j.depth ≤ d) : Reads (readValue d) (j.print level) j.canonical := by
  rw [readValue_eq]
  exact (reads_print_readTree h level hd).map canonical

/-- The entries of a printed object are decoded in the order in which they were written. -/
theorem Decoder.reads_entries {α : Type} {decoder : Decoder α} {f : Json → α} (level : Option Nat)
    {members : List (String × Json)} {d : Nat}
    (hread : ∀ e ∈ members, Reads (decoder.read d) (e.2.print (level.map (· + 1))) (f e.2)) :
    Reads (decoder.entries.read (d + 1)) ((Json.object members).print level)
      (members.map fun e => (e.1, f e.2)) := by
  intro blanks s hblanks _
  cases members with
  | nil =>
      simp only [Decoder.entries, skipGap_source hblanks]
      rfl
  | cons e members =>
      obtain ⟨rest, htext, hentries⟩ := readEntries_print level hread s
      simp only [Decoder.entries, skipGap_source hblanks, htext, source_cons, List.cons_append,
        skipGap_char (c := '\x7b') rfl]
      exact hentries

/-- A text that is read from the front is read as a whole, with blanks behind it. -/
theorem Reads.readAll_eq {α : Type} {read : Reader α} {text blanks : List Char} {x : α}
    (h : Reads (read maxDepth) text x) (hblanks : ∀ c ∈ blanks, isGap c = true) :
    readAll read (source (text ++ blanks)) = .ok x := by
  have hends : Ends (source blanks) := by simpa using ends_blanks hblanks ends_nil
  have hend : skipGap (source blanks) = [] := by simpa [skipGap] using skipGap_source hblanks []
  have hread := h.at_front hends
  simp only [readAll, source_append, hread, bind, Except.bind, hend]
  rfl

theorem ofString_ofList (cs : List Char) : Text.ofString (String.ofList cs) = source cs := by
  rw [Text.ofString, String.toList_ofList]
  rfl

/-- What is written on one line for a value is read as a whole if it is read from the front. -/
theorem readAll_compact {α : Type} {read : Reader α} {j : Json} {x : α}
    (h : Reads (read maxDepth) (j.print none) x) :
    readAll read (Text.ofString j.compact) = .ok x := by
  rw [compact, ofString_ofList, ← List.append_nil (j.print none)]
  exact h.readAll_eq (by simp)

/-- A value stands as it was written in the line that is written for it. -/
theorem readAll_readTree_compact {j : Json} (h : j.HasWholeNumbers) (hd : j.depth ≤ maxDepth) :
    readAll readTree (Text.ofString j.compact) = .ok j :=
  readAll_compact (reads_print_readTree h none hd)

/-- What is written on one line for a value denotes it, if no object in it repeats a name. -/
theorem denotes_compact {j : Json} (h : j.HasWholeNumbers) (hd : j.depth ≤ maxDepth)
    (hdistinct : j.Distinct) : Denotes (Text.ofString j.compact) j.canonical :=
  ⟨j, readAll_readTree_compact h hd, hdistinct, rfl⟩

/-- A value that is written on one line is parsed back, with its objects sorted. -/
theorem parse_compact {j : Json} (h : j.HasWholeNumbers) (hd : j.depth ≤ maxDepth) :
    parse (Text.ofString j.compact) = .ok j.canonical :=
  readAll_compact (reads_print h none hd)

/-- The members of an object that is written on one line are decoded in the order in which they were
written. -/
theorem parse_entries_compact {members : List (String × Json)}
    (h : (Json.object members).HasWholeNumbers) (hd : (Json.object members).depth ≤ maxDepth) :
    Decoder.value.entries.parse (Text.ofString (Json.object members).compact) =
      .ok (members.map fun e => (e.1, e.2.canonical)) := by
  cases h with
  | object whole =>
      have hread : ∀ e ∈ members,
          Reads (Decoder.value.read 126) (e.2.print none) e.2.canonical := fun e he =>
        reads_print (whole e he) none
          (Nat.le_trans (depth_le_depthMembers he) (Nat.le_of_succ_le_succ hd))
      exact readAll_compact (Decoder.reads_entries (d := 126) (f := canonical) none hread)

end MutationInput.Json
