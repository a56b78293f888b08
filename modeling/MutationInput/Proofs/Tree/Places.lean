import MutationInput.Proofs.Location
import MutationInput.Proofs.Tree.Consumes
import MutationInput.Proofs.Tree.Names

/-!
# Where operations stand in a text

An operation begins at a character of the text and has its location, and the next one begins at a
character further on: `stand_document`.
-/
namespace MutationInput

/-- Whether a character can be the first of an operation: of the word for its kind, or the brace of
a selection set. -/
def opensOperation (c : Char) : Bool :=
  c == 'q' || c == 'm' || c == 's' || c == '\x7b'

/-- Locations are those of characters of a text that can open an operation, each further on in the
text than the one before. -/
def Stand (s : Located) (locations : List Location) : Prop :=
  locations.Sublist ((s.filter fun e => opensOperation e.1).map Prod.snd)

instance (s : Located) (locations : List Location) : Decidable (Stand s locations) :=
  inferInstanceAs (Decidable (List.Sublist _ _))

namespace Stand

variable {s s' : Located} {locations : List Location}

theorem nil (s : Located) : Stand s [] :=
  List.nil_sublist _

theorem mono (h : Stand s' locations) (hs : s' <:+ s) : Stand s locations :=
  h.trans ((hs.sublist.filter _).map _)

theorem cons {c : Char} {l : Location} (hc : opensOperation c = true) (h : Stand s locations) :
    Stand ((c, l) :: s) (l :: locations) := by
  rw [Stand, List.filter_cons, if_pos hc]
  exact List.Sublist.cons_cons l h

/-- Where every carriage return is followed by a line feed, the locations increase. -/
theorem pairwise_precedes {text : String} (h : Stand (locate text) locations)
    (hfeed : ReturnsFeed text.toList) : locations.Pairwise Location.Precedes := by
  refine List.Pairwise.sublist h (List.pairwise_map.mpr ?_)
  have hstarts := (pairwise_precedes_locateFrom hfeed .start).filter fun e => opensOperation e.1
  refine hstarts.imp_of_mem ?_
  intro a b _ hb hab
  refine hab ?_
  intro hnew
  have hopens : opensOperation b.1 = true := (List.mem_filter.mp hb).2
  rw [hnew] at hopens
  cases hopens

end Stand

/-! ## Operations in a text -/

namespace Tree
namespace Parser

variable {s s' : Located}

/-- Between two texts an operation was read, which begins at the first character. -/
def Begins (s s' : Located) (l : Location) : Prop :=
  ∃ c t, s = (c, l) :: t ∧ opensOperation c = true ∧ s' <:+ t

theorem Begins.trans {s'' : Located} {l : Location} (h : Begins s s' l) (hs : s'' <:+ s') :
    Begins s s'' l := by
  obtain ⟨c, t, rfl, hc, ht⟩ := h
  exact ⟨c, t, rfl, hc, hs.trans ht⟩

theorem Begins.stand {l : Location} {locations : List Location} (h : Begins s s' l)
    (hs : Stand s' locations) : Stand s (l :: locations) := by
  obtain ⟨c, t, rfl, hc, ht⟩ := h
  exact (hs.mono ht).cons hc

theorem here_eq_some_iff {l : Location} :
    here s = some (l, s') ↔ s' = s ∧ ∃ c t, s = (c, l) :: t := by
  cases s with
  | nil => simp [here]
  | cons e s =>
      obtain ⟨c, k⟩ := e
      constructor
      · intro h
        cases h
        exact ⟨rfl, c, s, rfl⟩
      · rintro ⟨rfl, _, _, h⟩
        cases h
        rfl

/-- What a parser reads begins with a character that can open an operation. -/
class Opens {α : Type} (p : Parser α) : Prop where
  begins : ∀ {s s' : Located} {x : α}, p s = some (x, s') → ∃ l, Begins s s' l

instance opens_bind {α β : Type} {p : Parser α} {f : α → Parser β} [hp : Opens p]
    [hf : ∀ x, Consumes (f x)] : Opens (p >>= f) where
  begins := by
    intro s s'' y h
    obtain ⟨x, s', hx, hy⟩ := bind_eq_some_iff.mp h
    obtain ⟨l, hl⟩ := hp.begins hx
    exact ⟨l, hl.trans ((hf x).suffix hy)⟩

instance opens_orElse {α : Type} {p q : Parser α} [hp : Opens p] [hq : Opens q] :
    Opens (p <|> q) where
  begins := by
    intro s s' x h
    rcases orElse_eq_some_iff.mp h with h | ⟨-, h⟩
    · exact hp.begins h
    · exact hq.begins h

theorem opens_word {c : Char} (hc : opensOperation c = true) (cs : List Char) :
    Opens (word (c :: cs)) where
  begins := by
    intro s s' u h
    cases s with
    | nil => cases h
    | cons e s =>
        obtain ⟨d, l⟩ := e
        simp only [word] at h
        split at h
        · next heq =>
            subst heq
            exact ⟨l, c, s, rfl, hc, (consumes_word cs).suffix h⟩
        · cases h

theorem opens_keyword {w : String} (hw : w.toList.head?.any opensOperation = true) :
    Opens (keyword w) := by
  obtain ⟨c, hc, hopens⟩ := Option.any_eq_true _ _ |>.mp hw
  obtain ⟨cs, hcs⟩ := List.head?_eq_some_iff.mp hc
  have hword : Opens (word w.toList) := by
    rw [hcs]
    exact opens_word hopens cs
  unfold keyword token
  infer_instance

instance opens_operationKind : Opens operationKind := by
  have hquery : Opens (keyword "query") := opens_keyword rfl
  have hmutation : Opens (keyword "mutation") := opens_keyword rfl
  have hsubscription : Opens (keyword "subscription") := opens_keyword rfl
  unfold operationKind
  infer_instance

instance opens_selectionSet (depth : Nat) : Opens (selectionSet depth) := by
  cases depth with
  | zero =>
      refine ⟨?_⟩
      intro s s' x h
      cases h
  | succ depth =>
      have hbrace : Opens (keyword "\x7b") := opens_keyword rfl
      unfold selectionSet
      infer_instance

/-- What is read from here on begins here. -/
theorem begins_of_here {α : Type} {q : Location → Parser α} [hq : ∀ l, Opens (q l)] {x : α}
    (h : (here >>= q) s = some (x, s')) : ∃ l, q l s = some (x, s') ∧ Begins s s' l := by
  obtain ⟨l, t, hl, h⟩ := bind_eq_some_iff.mp h
  obtain ⟨rfl, c, u, rfl⟩ := here_eq_some_iff.mp hl
  obtain ⟨l', hbegins⟩ := (hq l).begins h
  obtain ⟨_, _, heq, hc, hu⟩ := hbegins
  cases heq
  exact ⟨l, h, c, u, rfl, hc, hu⟩

/-! ## Operations -/

theorem begins_operationDefinition {depth : Nat} {op : Operation}
    (h : operationDefinition depth s = some (op, s')) : Begins s s' op.location := by
  obtain ⟨l, h, hbegins⟩ := begins_of_here h
  obtain ⟨kind, _, -, h⟩ := bind_eq_some_iff.mp h
  obtain ⟨n, _, -, h⟩ := bind_eq_some_iff.mp h
  obtain ⟨definitions, _, -, h⟩ := bind_eq_some_iff.mp h
  obtain ⟨directives, _, -, h⟩ := bind_eq_some_iff.mp h
  obtain ⟨set, _, -, h⟩ := bind_eq_some_iff.mp h
  cases h
  exact hbegins

theorem begins_shorthandQuery {depth : Nat} {op : Operation}
    (h : shorthandQuery depth s = some (op, s')) : Begins s s' op.location := by
  obtain ⟨l, h, hbegins⟩ := begins_of_here h
  obtain ⟨set, _, -, h⟩ := bind_eq_some_iff.mp h
  cases h
  exact hbegins

/-- A definition that is read is a fragment, or an operation that begins where it says. -/
theorem definition_cases {depth : Nat} {d : Definition}
    (h : definition depth s = some (d, s')) :
    (∃ op, d = .operation op ∧ Begins s s' op.location) ∨ (∃ f, d = .fragment f ∧ s' <:+ s) := by
  rcases orElse_eq_some_iff.mp h with h | ⟨-, h⟩
  · obtain ⟨op, _, hop, h⟩ := bind_eq_some_iff.mp h
    cases h
    exact .inl ⟨op, rfl, begins_operationDefinition hop⟩
  · rcases orElse_eq_some_iff.mp h with h | ⟨-, h⟩
    · obtain ⟨op, _, hop, h⟩ := bind_eq_some_iff.mp h
      cases h
      exact .inl ⟨op, rfl, begins_shorthandQuery hop⟩
    · obtain ⟨f, _, hf, h⟩ := bind_eq_some_iff.mp h
      cases h
      exact .inr ⟨f, rfl, (consumes_fragmentDefinition depth).suffix hf⟩

/-- One definition in front of others. -/
theorem stand_definition {depth : Nat} {d : Definition} {defs : List Definition}
    (h : definition depth s = some (d, s'))
    (hs : Stand s' ((defs.filterMap Definition.operation?).map Operation.location)) :
    Stand s (((d :: defs).filterMap Definition.operation?).map Operation.location) := by
  obtain ⟨op, rfl, hbegins⟩ | ⟨f, rfl, hsuffix⟩ := definition_cases h
  · exact hbegins.stand hs
  · exact hs.mono hsuffix

theorem stand_manyUpTo (depth n : Nat) (s : Located) :
    Stand s (((manyUpTo (definition depth) n s).1.filterMap Definition.operation?).map
      Operation.location) := by
  induction n generalizing s with
  | zero => exact Stand.nil s
  | succ n ih =>
      rw [manyUpTo]
      cases hd : definition depth s with
      | none => exact Stand.nil s
      | some y => exact stand_definition hd (ih y.2)

/-- The operations of a document begin where they say, one after the other. -/
theorem stand_document {defs : List Definition} (h : document s = some (defs, s')) :
    Stand s ((defs.filterMap Definition.operation?).map Operation.location) := by
  obtain ⟨_, t, hblank, h⟩ := bind_eq_some_iff.mp h
  obtain ⟨_, _, hmany, h⟩ := bind_eq_some_iff.mp h
  obtain ⟨_, _, -, h⟩ := bind_eq_some_iff.mp h
  cases h
  obtain ⟨d, t', hd, h⟩ := bind_eq_some_iff.mp hmany
  obtain ⟨_, _, hrest, h⟩ := bind_eq_some_iff.mp h
  cases h
  have hstand := stand_manyUpTo s.length t'.length t'
  rw [Option.some.inj hrest] at hstand
  exact (stand_definition hd hstand).mono (consumes_blank.suffix hblank)

end Parser

theorem Document.stand_parse {text : String} {d : Document} (h : Document.parse text = .ok d) :
    Stand (locate text) (d.operations.map Operation.location) := by
  obtain ⟨defs, s', hdefs, hoperations, -, -⟩ := Document.exists_of_parse h
  rw [hoperations]
  exact Parser.stand_document hdefs

end Tree
end MutationInput
