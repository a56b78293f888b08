import MutationInput.Json.Reader
import MutationInput.Proofs.Json.Tokens

/-!
# Reading printed arrays and objects

`Reads` says of a reader that it takes a value from the front of a text and leaves the rest. What a
reader of items does with one item, the loop over items does with printed ones up to the closing
bracket, `readArray_printed`; and the members of an object are read in the order in which they are
written, `readEntries_printed`.
-/
namespace MutationInput.Json

/-- A reader takes `x` from the front of any text that begins with `text` after some blanks, and
leaves the rest. -/
def Reads {α : Type} (read : Source → Except Fault (α × Source)) (text : List Char) (x : α) :
    Prop :=
  ∀ blanks s, (∀ c ∈ blanks, isGap c = true) → Ends s →
    read (source blanks ++ (source text ++ s)) = .ok (x, s)

/-- A text begins like a value: neither with a blank nor with the end of an array. -/
def Opens (text : List Char) : Prop :=
  ∃ c rest, text = c :: rest ∧ isGap c = false ∧ c ≠ ']'

theorem Reads.map {α β : Type} {read : Source → Except Fault (α × Source)} {text : List Char}
    {x : α} (h : Reads read text x) (f : α → β) :
    Reads (fun s => (read s).map fun r => (f r.1, r.2)) text (f x) := by
  intro blanks s hblanks hs
  simp only [h blanks s hblanks hs]
  rfl

/-- A text that is read when no blanks stand before it. -/
theorem Reads.at_front {α : Type} {read : Source → Except Fault (α × Source)} {text : List Char}
    {x : α} (h : Reads read text x) {s : Source} (hs : Ends s) :
    read (source text ++ s) = .ok (x, s) :=
  h [] s (by simp) hs

/-- The text begins with its first token. -/
theorem Opens.skipGap_source {text blanks : List Char} (h : Opens text)
    (hblanks : ∀ c ∈ blanks, isGap c = true) (s : Source) :
    skipGap (source blanks ++ (source text ++ s)) = source text ++ s := by
  obtain ⟨c, rest, rfl, hgap, -⟩ := h
  rw [Json.skipGap_source hblanks]
  exact skipGap_char hgap _

/-- Nothing of a number follows where blanks and a mark do. -/
theorem ends_blanks {blanks : List Char} (h : ∀ c ∈ blanks, isGap c = true) {s : Source}
    (hs : Ends s) : Ends (source blanks ++ s) := by
  cases blanks with
  | nil => exact hs
  | cons c blanks =>
      have hc := h c (by simp)
      simp only [isGap, Bool.or_eq_true, beq_iff_eq] at hc
      obtain ((rfl | rfl) | rfl) | rfl := hc <;>
        exact ends_cons (by decide) (by decide) (by decide) (by decide) _

/-! ## Arrays -/

section Arrays

variable {α : Type} {item : Source → Except Fault (α × Source)}

/-- The last item is followed by the closing bracket. -/
theorem readItems_last {x : α} {s s' rest : Source} (hitem : item s = .ok (x, s'))
    (hclose : skipGap s' = .char ']' :: rest) (fuel : Nat) :
    readItems item (fuel + 1) s = .ok ([x], rest) := by
  simp only [readItems, hitem, bind, Except.bind, hclose]
  rfl

/-- Any other item is followed by a comma and more items. -/
theorem readItems_comma {x : α} {s s' s'' rest : Source} {c : Char} (hitem : item s = .ok (x, s'))
    (hcomma : skipGap s' = .char ',' :: s'') (hmore : skipGap s'' = .char c :: rest)
    (hc : c ≠ ']') (fuel : Nat) :
    readItems item (fuel + 1) s =
      (readItems item fuel (.char c :: rest)).map fun r => (x :: r.1, r.2) := by
  simp only [readItems, hitem, bind, Except.bind, hcomma, hmore]
  split
  · next h => cases h
  · next h =>
      cases h
      exact absurd rfl hc
  · cases readItems item fuel (.char c :: rest) <;> rfl

/-- Printed items are read up to the closing bracket. -/
theorem readItems_printed {blanks close : List Char} (hblanks : ∀ c ∈ blanks, isGap c = true)
    (hclose : ∀ c ∈ close, isGap c = true) {more : List (List Char × α)}
    (hmore : ∀ e ∈ more, Opens e.1 ∧ Reads item e.1 e.2) {text : List Char} {x : α}
    (hx : Reads item text x) {fuel : Nat} (hfuel : more.length < fuel) (s : Source) :
    readItems item fuel (source text ++ (source (more.flatMap fun e => ',' :: (blanks ++ e.1)) ++
      (source close ++ .char ']' :: s))) = .ok (x :: more.map Prod.snd, s) := by
  induction more generalizing text x fuel with
  | nil =>
      obtain ⟨fuel, rfl⟩ := Nat.exists_eq_add_one_of_ne_zero (Nat.ne_zero_of_lt hfuel)
      have hends : Ends (source close ++ .char ']' :: s) :=
        ends_blanks hclose (ends_cons (by decide) (by decide) (by decide) (by decide) s)
      refine readItems_last (hx.at_front hends) ?_ fuel
      exact (skipGap_source hclose _).trans (skipGap_char rfl s)
  | cons e more ih =>
      obtain ⟨fuel, rfl⟩ := Nat.exists_eq_add_one_of_ne_zero (Nat.ne_zero_of_lt hfuel)
      obtain ⟨hopens, he⟩ := hmore e (by simp)
      have hrest := ih (fun e' he' => hmore e' (by simp [he'])) he
        (Nat.lt_of_succ_lt_succ hfuel)
      have hskip := hopens.skipGap_source hblanks
        (source (more.flatMap fun e => ',' :: (blanks ++ e.1)) ++ (source close ++ .char ']' :: s))
      obtain ⟨c, rest, htext, -, hc⟩ := hopens
      simp only [htext, source_cons, List.cons_append] at hrest hskip
      simp only [List.flatMap_cons, source_append, source_cons, htext, List.cons_append,
        List.append_assoc]
      have hends := ends_cons (c := ',') (by decide) (by decide) (by decide) (by decide)
      rw [readItems_comma (hx.at_front (hends _)) (skipGap_char rfl _) hskip hc, hrest]
      rfl

theorem length_le_length_flatMap (blanks : List Char) (more : List (List Char × α)) :
    more.length ≤ (more.flatMap fun e => ',' :: (blanks ++ e.1)).length := by
  induction more with
  | nil => simp
  | cons e more ih =>
      simp only [List.flatMap_cons, List.length_cons, List.length_append]
      omega

/-- Printed items are read, the opening bracket already read. -/
theorem readArray_printed (blanks close : List Char) (hblanks : ∀ c ∈ blanks, isGap c = true)
    (hclose : ∀ c ∈ close, isGap c = true) {more : List (List Char × α)}
    (hmore : ∀ e ∈ more, Opens e.1 ∧ Reads item e.1 e.2) {text : List Char} {x : α}
    (hopens : Opens text) (hx : Reads item text x) (s : Source) :
    readArray item (source blanks ++ (source text ++
      (source (more.flatMap fun e => ',' :: (blanks ++ e.1)) ++
        (source close ++ .char ']' :: s)))) = .ok (x :: more.map Prod.snd, s) := by
  have hskip := hopens.skipGap_source hblanks
    (source (more.flatMap fun e => ',' :: (blanks ++ e.1)) ++ (source close ++ .char ']' :: s))
  rw [readArray, hskip]
  split
  · next h =>
      obtain ⟨c, rest, rfl, -, -⟩ := hopens
      cases h
  · next h =>
      obtain ⟨c, rest, rfl, -, hc⟩ := hopens
      cases h
      exact absurd rfl hc
  · refine readItems_printed hblanks hclose hmore hx ?_ s
    have hlength := length_le_length_flatMap blanks more
    simp only [List.length_append, length_source, List.length_cons]
    omega

end Arrays

/-! ## Objects -/

/-- One more entry in front of those that were read before it. -/
def addEntry {α : Type} (value : Source → Except Fault (α × Source))
    (entries : List (String × α)) (k : String) (s : Source) :
    Except Fault (List (String × α) × Source) := do
  let s ← expectColon s
  let (v, s) ← value s
  return ((k, v) :: entries, s)

section Objects

variable {α : Type} {value : Source → Except Fault (α × Source)}

/-- What is printed for the members of an object after the first one. -/
def moreMembers (blanks gap : List Char) (more : List (String × List Char × α)) : List Char :=
  more.flatMap fun e => ',' :: (blanks ++ '"' :: (quotedRest e.1 ++ ':' :: (gap ++ e.2.1)))

theorem addEntry_printed {gap text : List Char} (hgap : ∀ c ∈ gap, isGap c = true) {x : α}
    (hx : Reads value text x) (entries : List (String × α)) (k : String) {s : Source}
    (hs : Ends s) :
    addEntry value entries k (.char ':' :: (source gap ++ (source text ++ s))) =
      .ok ((k, x) :: entries, s) := by
  have hcolon : expectColon (.char ':' :: (source gap ++ (source text ++ s))) =
      .ok (source gap ++ (source text ++ s)) := by
    simp [expectColon, skipGap_char (c := ':') rfl]
  simp only [addEntry, hcolon, bind, Except.bind, hx gap s hgap hs]
  rfl

/-- The last member is followed by the closing brace. -/
theorem readMembers_last {κ σ : Type} {name : Source → Except Fault (κ × Source)}
    {member : σ → κ → Source → Except Fault (σ × Source)} {k : κ} {x x' : σ}
    {s s' s'' rest : Source} (hname : name s = .ok (k, s'))
    (hmember : member x k s' = .ok (x', s'')) (hclose : skipGap s'' = .char '\x7d' :: rest)
    (fuel : Nat) :
    readMembers name member (fuel + 1) x s = .ok (x', rest) := by
  simp only [readMembers, hname, hmember, bind, Except.bind, hclose]
  rfl

/-- Any other member is followed by a comma and the quote of the next name. -/
theorem readMembers_comma {κ σ : Type} {name : Source → Except Fault (κ × Source)}
    {member : σ → κ → Source → Except Fault (σ × Source)} {k : κ} {x x' : σ}
    {s s' s'' more rest : Source} (hname : name s = .ok (k, s'))
    (hmember : member x k s' = .ok (x', s'')) (hcomma : skipGap s'' = .char ',' :: more)
    (hquote : skipGap more = .char '"' :: rest) (fuel : Nat) :
    readMembers name member (fuel + 1) x s = readMembers name member fuel x' rest := by
  simp only [readMembers, hname, hmember, bind, Except.bind, hcomma, hquote]

/-- Printed members are read up to the closing brace, the last one first in the result. -/
theorem readMembers_printed {blanks gap close : List Char}
    (hblanks : ∀ c ∈ blanks, isGap c = true) (hgap : ∀ c ∈ gap, isGap c = true)
    (hclose : ∀ c ∈ close, isGap c = true) {more : List (String × List Char × α)}
    (hmore : ∀ e ∈ more, Reads value e.2.1 e.2.2) (k : String) {text : List Char} {x : α}
    (hx : Reads value text x) {fuel : Nat} (hfuel : more.length < fuel)
    (entries : List (String × α)) (s : Source) :
    readMembers readString (addEntry value) fuel entries (source (quotedRest k) ++
        .char ':' :: (source gap ++ (source text ++ (source (moreMembers blanks gap more) ++
          (source close ++ .char '\x7d' :: s))))) =
      .ok ((more.map fun e => (e.1, e.2.2)).reverse ++ (k, x) :: entries, s) := by
  induction more generalizing k text x fuel entries with
  | nil =>
      obtain ⟨fuel, rfl⟩ := Nat.exists_eq_add_one_of_ne_zero (Nat.ne_zero_of_lt hfuel)
      have hends : Ends (source close ++ .char '\x7d' :: s) :=
        ends_blanks hclose (ends_cons (by decide) (by decide) (by decide) (by decide) s)
      refine readMembers_last (readString_quotedRest k _)
        (addEntry_printed hgap hx entries k hends) ?_ fuel
      exact (skipGap_source hclose _).trans (skipGap_char rfl s)
  | cons e more ih =>
      obtain ⟨fuel, rfl⟩ := Nat.exists_eq_add_one_of_ne_zero (Nat.ne_zero_of_lt hfuel)
      have hrest := ih (fun e' he' => hmore e' (by simp [he'])) e.1 (hmore e (by simp))
        (Nat.lt_of_succ_lt_succ hfuel) ((k, x) :: entries)
      have hends : ∀ t, Ends (.char ',' :: t) :=
        ends_cons (by decide) (by decide) (by decide) (by decide)
      simp only [moreMembers, List.flatMap_cons, source_append, source_cons, List.cons_append,
        List.append_assoc] at hrest ⊢
      rw [readMembers_comma (readString_quotedRest k _)
        (addEntry_printed hgap hx entries k (hends _)) (skipGap_char rfl _)
        ((skipGap_source hblanks _).trans (skipGap_char rfl _)), hrest]
      simp

theorem length_le_length_moreMembers (blanks gap : List Char)
    (more : List (String × List Char × α)) :
    more.length ≤ (moreMembers blanks gap more).length := by
  induction more with
  | nil => simp [moreMembers]
  | cons e more ih =>
      simp only [moreMembers, List.flatMap_cons, List.length_cons, List.length_append] at ih ⊢
      omega

/-- Printed members are read in the order in which they were written, the opening brace already
read. -/
theorem readEntries_printed (blanks gap close : List Char)
    (hblanks : ∀ c ∈ blanks, isGap c = true) (hgap : ∀ c ∈ gap, isGap c = true)
    (hclose : ∀ c ∈ close, isGap c = true) {more : List (String × List Char × α)}
    (hmore : ∀ e ∈ more, Reads value e.2.1 e.2.2) (k : String) {text : List Char} {x : α}
    (hx : Reads value text x) (s : Source) :
    readEntries value (source blanks ++ .char '"' :: (source (quotedRest k) ++
        .char ':' :: (source gap ++ (source text ++ (source (moreMembers blanks gap more) ++
          (source close ++ .char '\x7d' :: s)))))) =
      .ok ((k, x) :: more.map fun e => (e.1, e.2.2), s) := by
  have hobject : readObject readString (addEntry value) [] (source blanks ++ .char '"' ::
      (source (quotedRest k) ++ .char ':' :: (source gap ++ (source text ++
        (source (moreMembers blanks gap more) ++ (source close ++ .char '\x7d' :: s)))))) =
      .ok ((more.map fun e => (e.1, e.2.2)).reverse ++ [(k, x)], s) := by
    rw [readObject, skipGap_source hblanks, skipGap_char rfl]
    refine readMembers_printed hblanks hgap hclose hmore k hx ?_ [] s
    have hlength := length_le_length_moreMembers blanks gap more
    simp only [List.length_append, length_source, List.length_cons]
    omega
  change (readObject readString (addEntry value) [] _ >>= _) = _
  rw [hobject]
  simp [bind, Except.bind, pure, Except.pure]

end Objects

end MutationInput.Json
