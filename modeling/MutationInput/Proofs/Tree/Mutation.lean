import MutationInput.Proofs.Tree.Words
import MutationInput.Tree.Document

/-!
# The text of a mutation

A mutation that passes one object of numbers as its only argument, written out as a text, is read as
the tree that one expects: the rules of the grammar are followed from the numbers up to the
document, and at each choice the alternatives before the right one refuse the text. The names in it
may be words that mean something elsewhere, and may repeat.
-/
namespace MutationInput.Tree

/-- The mutation that selects `id` of a field `f` and passes it one argument `a`. -/
def Operation.passing (f a : String) (x : Literal) (l₁ l₂ l₃ : Location) : Operation :=
  ⟨.mutation, none, l₁, [], [],
    [.field ⟨none, f, l₂, [(a, x)], []⟩ [.field ⟨none, "id", l₃, [], []⟩ []]]⟩

/-- A field of an object as it is written. -/
def fieldText (e : String × Nat) : List Char :=
  e.1.toList ++ ':' :: ' ' :: Nat.toDigits 10 e.2

/-- The fields of an object as they are written. -/
def fieldsText (fields : List (String × Nat)) : List Char :=
  [',', ' '].intercalate (fields.map fieldText)

/-- The literal of a field. -/
def numbered (e : String × Nat) : String × Literal :=
  (e.1, .number (Numeral.toNumber ⟨false, Nat.toDigits 10 e.2, none, none⟩))

theorem fieldsText_singleton (e : String × Nat) : fieldsText [e] = fieldText e :=
  List.intercalate_singleton

theorem fieldsText_cons_cons (e e' : String × Nat) (fields : List (String × Nat)) :
    fieldsText (e :: e' :: fields) = fieldText e ++ ',' :: ' ' :: fieldsText (e' :: fields) := by
  simp [fieldsText, List.intercalate_cons_cons]

/-- The fields begin with the name of the first. -/
theorem exists_fieldsText_eq (e : String × Nat) (fields : List (String × Nat)) :
    ∃ more, fieldsText (e :: fields) = e.1.toList ++ more := by
  cases fields with
  | nil => exact ⟨_, fieldsText_singleton e⟩
  | cons e' fields =>
      rw [fieldsText_cons_cons, fieldText, List.append_assoc]
      exact ⟨_, rfl⟩

namespace Parser

variable {α : Type} {p : Parser α} {Q : α → Prop} {text mid rest gap : List Char} {d : Nat}

theorem stops_fieldsText {fields : List (String × Nat)} (h : ∀ e ∈ fields, IsName e.1) :
    Stops opensBlank (fieldsText fields ++ '\x7d' :: text) := by
  cases fields with
  | nil =>
      rw [fieldsText, List.map_nil, List.intercalate_nil]
      exact stops_cons.mpr rfl
  | cons e fields =>
      obtain ⟨more, hmore⟩ := exists_fieldsText_eq e fields
      rw [hmore, List.append_assoc]
      exact stops_name (h e List.mem_cons_self) _

/-! ## Literals -/

theorem takes_labelled {n : String} (hn : IsName n) (htext : Stops opensBlank text)
    (hp : Takes p text Q rest) :
    Takes (labelled p) (n.toList ++ ':' :: ' ' :: text) (fun e => e.1 = n ∧ Q e.2) rest := by
  have hname : Takes name (n.toList ++ ([] ++ ':' :: ' ' :: text)) (· = n) (':' :: ' ' :: text) :=
    takes_name hn (stops_cons.mpr rfl) (isGap_nil (stops_cons.mpr rfl))
  have hcolon : Takes (keyword ":") ([':'] ++ ([' '] ++ text)) (fun _ => True) text :=
    takes_keyword (by simp) (isGap_space htext)
  exact hname.bind fun k hk => hcolon.bind fun _ _ => hp.bind fun x hx => takes_pure ⟨hk, hx⟩

theorem refuses_variableName (h : Stops (· == '$') text) : Refuses variableName text :=
  (refuses_keyword '$' (by simp) h).bind _

/-- Nothing but a quote begins a string. -/
theorem refuses_stringLiteral (h : Stops (· == '"') text) : Refuses stringLiteral text :=
  ((refuses_word h).bind _).orElse ((refuses_word h).bind _)

theorem takes_number (n : Nat) (hstop : Stops extendsNumber (gap ++ rest))
    (hgap : IsGap gap rest) :
    Takes (literal false (d + 1)) (Nat.toDigits 10 n ++ (gap ++ rest))
      (· = .number (Numeral.toNumber ⟨false, Nat.toDigits 10 n, none, none⟩)) rest := by
  have hdollar : Stops (· == '$') (Nat.toDigits 10 n ++ (gap ++ rest)) :=
    stops_toDigits (fun c hc => by rw [eq_of_beq hc]; decide) n _
  rw [literal]
  refine Refuses.orElse_takes ((refuses_variableName hdollar).bind _) (Takes.orElse ?_ _)
  refine Takes.orElse (((takes_numeral n hstop).token hgap).bind fun t ht => takes_pure ?_) _
  rw [ht]

/-- What begins an object begins no scalar. -/
theorem refuses_scalarLiteral : Refuses scalarLiteral ('\x7b' :: text) := by
  have hnumber : Refuses numeral ('\x7b' :: text) :=
    refuses_numeral (by simp) (by simp)
  have hstring : Refuses stringLiteral ('\x7b' :: text) := refuses_stringLiteral (by simp)
  have htrue : Refuses (keyword "true") ('\x7b' :: text) :=
    refuses_keyword 't' (by simp) (by simp)
  have hfalse : Refuses (keyword "false") ('\x7b' :: text) :=
    refuses_keyword 'f' (by simp) (by simp)
  have hnull : Refuses (keyword "null") ('\x7b' :: text) :=
    refuses_keyword 'n' (by simp) (by simp)
  have hname : Refuses name ('\x7b' :: text) := refuses_name (stops_cons.mpr rfl)
  exact (hnumber.token.bind _).orElse ((hstring.token.bind _).orElse
    ((((htrue.bind _).orElse (hfalse.bind _)).bind _).orElse
      ((hnull.bind _).orElse (hname.bind _))))

theorem takes_field {e : String × Nat} (he : IsName e.1) (hstop : Stops extendsNumber (gap ++ rest))
    (hgap : IsGap gap rest) :
    Takes (labelled (literal false (d + 1))) (fieldText e ++ (gap ++ rest)) (· = numbered e)
      rest := by
  have hfield := takes_labelled he (stops_number e.2 _) (takes_number (d := d) e.2 hstop hgap)
  rw [fieldText, List.append_assoc]
  exact hfield.mono fun x hx => Prod.ext hx.1 hx.2

/-- A field is followed by the closing brace, or by a comma and the further fields. In either case
its number ends. -/
theorem exists_gap_of_cons (e : String × Nat) {fields : List (String × Nat)}
    (h : ∀ e ∈ fields, IsName e.1) (text : List Char) :
    ∃ gap, fieldsText (e :: fields) ++ '\x7d' :: text =
        fieldText e ++ (gap ++ (fieldsText fields ++ '\x7d' :: text)) ∧
      IsGap gap (fieldsText fields ++ '\x7d' :: text) ∧
      Stops extendsNumber (gap ++ (fieldsText fields ++ '\x7d' :: text)) := by
  cases fields with
  | nil =>
      refine ⟨[], ?_, isGap_nil (stops_cons.mpr rfl), stops_cons.mpr rfl⟩
      rw [fieldsText_singleton]
      rfl
  | cons e' fields =>
      refine ⟨[',', ' '], ?_, isGap_comma (stops_fieldsText h), stops_cons.mpr rfl⟩
      rw [fieldsText_cons_cons, List.append_assoc]
      rfl

/-- The fields are read one after the other, up to the closing brace. -/
theorem takesMany_fields {fields : List (String × Nat)} (h : ∀ e ∈ fields, IsName e.1) :
    TakesMany (labelled (literal false (d + 1))) (fieldsText fields ++ '\x7d' :: text)
      (· = fields.map numbered) ('\x7d' :: text) := by
  have hend : Refuses (labelled (literal false (d + 1))) ('\x7d' :: text) :=
    (refuses_name (stops_cons.mpr rfl)).bind _
  induction fields with
  | nil => exact hend.takesMany
  | cons e fields ih =>
      obtain ⟨he, hfields⟩ := List.forall_mem_cons.mp h
      obtain ⟨gap, htext, hgap, hstop⟩ := exists_gap_of_cons e hfields text
      have hfirst := takes_field (d := d) he hstop hgap
      have hlt : (fieldsText fields ++ '\x7d' :: text).length <
          (fieldText e ++ (gap ++ (fieldsText fields ++ '\x7d' :: text))).length := by
        simp only [fieldText, List.length_append, List.length_cons]
        omega
      rw [htext]
      refine (hfirst.takesMany hlt (ih hfields)).mono ?_
      rintro _ ⟨_, _, rfl, rfl, rfl⟩
      rfl

/-- The object is read with its fields. -/
theorem takes_object {fields : List (String × Nat)} (h : ∀ e ∈ fields, IsName e.1)
    (htext : Stops opensBlank text) :
    Takes (literal false (d + 2)) ('\x7b' :: (fieldsText fields ++ '\x7d' :: text))
      (· = objectLiteral (fields.map numbered)) text := by
  have hopen : Takes (keyword "\x7b")
      (['\x7b'] ++ ([] ++ (fieldsText fields ++ '\x7d' :: text))) (fun _ => True)
      (fieldsText fields ++ '\x7d' :: text) :=
    takes_keyword (by simp) (isGap_nil (stops_fieldsText h))
  have hclose : Takes (keyword "\x7d") (['\x7d'] ++ ([] ++ text)) (fun _ => True) text :=
    takes_keyword (by simp) (isGap_nil htext)
  rw [literal]
  refine Refuses.orElse_takes ((refuses_variableName (by simp)).bind _)
    (refuses_scalarLiteral.orElse_takes (Refuses.orElse_takes ?_ ?_))
  · exact (refuses_keyword '[' (by simp) (by simp)).bind _
  · refine hopen.bind fun _ _ => (takesMany_fields h).many.bind fun xs hxs =>
      hclose.bind fun _ _ => takes_pure ?_
    rw [hxs]

/-! ## Selections -/

theorem takes_noDirectives (h : Stops (· == '@') text) :
    Takes (many (directive d)) text (· = []) text :=
  ((refuses_keyword '@' (by simp) h).bind _ : Refuses (directive d) text).takesMany.many

theorem takes_noArguments (h : Stops (· == '(') text) :
    Takes (arguments? d) text (· = []) text := by
  have hnone : Refuses (arguments d) text := (refuses_keyword '(' (by simp) h).bind _
  exact hnone.optional.bind fun x hx => takes_pure (by rw [hx]; rfl)

/-- A field without alias and directives is read with its arguments and what is nested in it. -/
theorem takes_selection {n : String} {args : List (String × Literal)}
    {nested : Parser (List Selection)} {S : Option (List Selection) → Prop} (hn : IsName n)
    (hgap : IsGap gap text) (hname : Stops isNameChar (gap ++ text))
    (hcolon : Stops (· == ':') text) (hargs : Takes (arguments? d) text (· = args) mid)
    (hat : Stops (· == '@') mid) (hnested : Takes (optional nested) mid S rest) :
    Takes (selection d nested) (n.toList ++ (gap ++ text))
      (fun x => ∃ l set, x = .field ⟨none, n, l, args, []⟩ (set.getD []) ∧ S set) rest := by
  have htoken := takes_name hn hname hgap
  have halias : Refuses (do let a ← name; keyword ":"; return a) (n.toList ++ (gap ++ text)) :=
    htoken.refuses_bind fun _ _ => (refuses_keyword ':' (by simp) hcolon).bind _
  have hhere : Takes here (n.toList ++ (gap ++ text)) (fun _ => True)
      (n.toList ++ (gap ++ text)) := by
    obtain ⟨c, cs, hcs, -⟩ := hn
    rw [hcs]
    exact takes_here
  refine Takes.orElse ?_ _
  refine hhere.bind fun l _ => halias.optional.bind fun a ha => htoken.bind fun k hk =>
    hargs.bind fun x hx => (takes_noDirectives hat).bind fun ds hds =>
      hnested.bind fun set hset => ?_
  subst ha hk hx hds
  exact takes_pure ⟨l, set, rfl, hset⟩

/-- A single argument is read with its value. -/
theorem takes_argument {a : String} {x : Literal} (ha : IsName a) (hgap : IsGap gap text)
    (hmid : Stops opensBlank mid)
    (hx : Takes (literal false d) mid (· = x) (')' :: (gap ++ text))) :
    Takes (arguments? d) ('(' :: (a.toList ++ ':' :: ' ' :: mid)) (· = [(a, x)]) text := by
  have hopen : Takes (keyword "(") (['('] ++ ([] ++ (a.toList ++ ':' :: ' ' :: mid)))
      (fun _ => True) (a.toList ++ ':' :: ' ' :: mid) :=
    takes_keyword (by simp) (isGap_nil (stops_name ha _))
  have hone : Takes (many1 (labelled (literal false d))) (a.toList ++ ':' :: ' ' :: mid)
      (· = [(a, x)]) (')' :: (gap ++ text)) := by
    have hend : Refuses (labelled (literal false d)) (')' :: (gap ++ text)) :=
      (refuses_name (stops_cons.mpr rfl)).bind _
    refine (TakesMany.many1 (takes_labelled ha hmid hx) hend.takesMany).mono ?_
    rintro _ ⟨⟨k, v⟩, _, rfl, ⟨rfl, rfl⟩, rfl⟩
    rfl
  have hclose : Takes (keyword ")") ([')'] ++ (gap ++ text)) (fun _ => True) text :=
    takes_keyword (by simp) hgap
  have hargs : Takes (arguments d) ('(' :: (a.toList ++ ':' :: ' ' :: mid)) (· = [(a, x)]) text :=
    hopen.bind fun _ _ => hone.bind fun xs hxs => hclose.bind fun _ _ => takes_pure hxs
  refine hargs.optional.bind fun y hy => takes_pure ?_
  obtain ⟨xs, rfl, rfl⟩ := hy
  rfl

/-- A closing brace begins no selection. -/
theorem refuses_selection {nested : Parser (List Selection)} :
    Refuses (selection d nested) ('\x7d' :: text) := by
  have hname : Refuses name ('\x7d' :: text) := refuses_name (stops_cons.mpr rfl)
  have halias : Refuses (do let a ← name; keyword ":"; return a) ('\x7d' :: text) := hname.bind _
  have hdots : Refuses (keyword "...") ('\x7d' :: text) := refuses_keyword '.' (by simp) (by simp)
  have hfield : Refuses (field d nested) ('\x7d' :: text) :=
    takes_here.refuses_bind fun _ _ => halias.optional.refuses_bind fun _ _ => hname.bind _
  have hinline : Refuses (inlineFragment d nested) ('\x7d' :: text) :=
    takes_here.refuses_bind fun _ _ => hdots.bind _
  have hspread : Refuses (fragmentSpread d) ('\x7d' :: text) :=
    takes_here.refuses_bind fun _ _ => hdots.bind _
  exact hfield.orElse (hinline.orElse hspread)

/-- A selection set of one selection is read with it. -/
theorem takes_selectionSet {S : Selection → Prop} (hgap : IsGap gap text)
    (hmid : Stops opensBlank mid)
    (hone : Takes (selection d (selectionSet d)) mid S ('\x7d' :: (gap ++ text))) :
    Takes (selectionSet (d + 1)) ('\x7b' :: ' ' :: mid) (fun set => ∃ x, set = [x] ∧ S x) text := by
  have hopen : Takes (keyword "\x7b") (['\x7b'] ++ ([' '] ++ mid)) (fun _ => True) mid :=
    takes_keyword (by simp) (isGap_space hmid)
  have hclose : Takes (keyword "\x7d") (['\x7d'] ++ (gap ++ text)) (fun _ => True) text :=
    takes_keyword (by simp) hgap
  rw [selectionSet]
  have hmany := TakesMany.many1 hone refuses_selection.takesMany
  refine hopen.bind fun _ _ => hmany.bind fun set hset => hclose.bind fun _ _ => takes_pure ?_
  obtain ⟨x, _, rfl, hx, rfl⟩ := hset
  exact ⟨x, rfl, hx⟩

/-! ## Operations -/

theorem takes_operationKind (hgap : IsGap gap text) :
    Takes operationKind (['m', 'u', 't', 'a', 't', 'i', 'o', 'n'] ++ (gap ++ text))
      (· = .mutation) text := by
  have hword : Takes (keyword "mutation")
      (['m', 'u', 't', 'a', 't', 'i', 'o', 'n'] ++ (gap ++ text)) (fun _ => True) text :=
    takes_keyword (by simp) hgap
  refine Refuses.orElse_takes ((refuses_keyword 'q' (by simp) (by simp)).bind _) (Takes.orElse ?_ _)
  exact hword.bind fun _ _ => takes_pure rfl

/-- A mutation without name, variables and directives is read with its selection set. -/
theorem takes_mutation {S : List Selection → Prop}
    (hset : Takes (selectionSet d) ('\x7b' :: text) S rest) :
    Takes (operationDefinition d)
      (['m', 'u', 't', 'a', 't', 'i', 'o', 'n'] ++ ([' '] ++ '\x7b' :: text))
      (fun op => ∃ l set, op = ⟨.mutation, none, l, [], [], set⟩ ∧ S set) rest := by
  have hgap : IsGap [' '] ('\x7b' :: text) := isGap_space (stops_cons.mpr rfl)
  have hkind := takes_operationKind hgap
  have hname : Refuses name ('\x7b' :: text) := refuses_name (stops_cons.mpr rfl)
  have hvariables : Refuses (variableDefinitions d) ('\x7b' :: text) :=
    (refuses_keyword '(' (by simp) (by simp)).bind _
  refine takes_here.bind fun l _ => hkind.bind fun kind hk => hname.optional.bind fun n hn =>
    hvariables.optional.bind fun defs hdefs => (takes_noDirectives (by simp)).bind fun ds hds =>
      hset.bind fun set hS => ?_
  subst hk hn hdefs hds
  exact takes_pure ⟨l, set, rfl, hS⟩

/-- No definition begins at the end of the text. -/
theorem refuses_definition : Refuses (definition d) [] := by
  have hfragment : Refuses (keyword "fragment") [] := refuses_keyword 'f' (by simp) (by simp)
  exact ((refuses_here.bind _ : Refuses (operationDefinition d) []).bind _).orElse
    (((refuses_here.bind _ : Refuses (shorthandQuery d) []).bind _).orElse
      ((hfragment.bind _ : Refuses (fragmentDefinition d) []).bind _))

/-- A document of one operation is read with it. -/
theorem takes_document {O : Operation → Prop} (htext : Stops opensBlank text)
    (hop : Takes (operationDefinition text.length) text O []) :
    Takes document text (fun defs => ∃ op, defs = [.operation op] ∧ O op) [] := by
  intro s hs
  have hlength : s.length = text.length := by rw [← hs, length_characters]
  have hone : Takes (definition text.length) text (fun x => ∃ op, x = .operation op ∧ O op) [] :=
    Takes.orElse (hop.bind fun op ho => takes_pure ⟨op, rfl, ho⟩) _
  have hblank : Takes blank ([] ++ text) (fun _ => True) text := takes_blank (isGap_nil htext)
  have hdocument : Takes (do
      blank
      let defs ← many1 (definition s.length)
      atEnd
      return defs : Parser (List Definition)) text
      (fun defs => ∃ op, defs = [.operation op] ∧ O op) [] := by
    rw [hlength]
    refine hblank.bind fun _ _ => (TakesMany.many1 hone refuses_definition.takesMany).bind
      fun defs hdefs => takes_atEnd.bind fun _ _ => takes_pure ?_
    obtain ⟨_, _, rfl, ⟨op, rfl, ho⟩, rfl⟩ := hdefs
    exact ⟨op, rfl, ho⟩
  exact hdocument s hs

/-! ## The whole text -/

/-- The field `id` is read at the end of a selection set. -/
theorem takes_id :
    Takes (selection d (selectionSet d)) ('i' :: 'd' :: ' ' :: '\x7d' :: text)
      (fun x => ∃ l, x = .field ⟨none, "id", l, [], []⟩ []) ('\x7d' :: text) := by
  have hn : IsName "id" := by decide +kernel
  have hnested : Refuses (selectionSet d) ('\x7d' :: text) := by
    cases d with
    | zero => exact fun s hs => rfl
    | succ d => exact (refuses_keyword '\x7b' (by simp) (by simp)).bind _
  have hgap : IsGap [' '] ('\x7d' :: text) := isGap_space (stops_cons.mpr rfl)
  have hid := takes_selection (d := d) hn hgap (stops_cons.mpr rfl) (by simp)
    (takes_noArguments (by simp)) (by simp) hnested.optional
  refine hid.mono ?_
  rintro _ ⟨l, _, rfl, rfl⟩
  exact ⟨l, rfl⟩

end Parser

/-- The mutation that passes an object of numbers, as it is written. -/
def mutationText (f a : String) (fields : List (String × Nat)) : List Char :=
  ['m', 'u', 't', 'a', 't', 'i', 'o', 'n'] ++ ' ' :: '\x7b' :: ' ' :: (f.toList ++
    '(' :: (a.toList ++ ':' :: ' ' :: '\x7b' :: (fieldsText fields ++
      ['\x7d', ')', ' ', '\x7b', ' ', 'i', 'd', ' ', '\x7d', ' ', '\x7d'])))

namespace Parser

/-- The text is read as the mutation that passes the object, whatever the names. -/
theorem takes_mutationText {f a : String} {fields : List (String × Nat)} (hf : IsName f)
    (ha : IsName a) (hfields : ∀ e ∈ fields, IsName e.1) :
    Takes document (mutationText f a fields)
      (fun defs => ∃ l₁ l₂ l₃, defs =
        [.operation (.passing f a (objectLiteral (fields.map numbered)) l₁ l₂ l₃)]) [] := by
  -- Every level of brackets needs one of depth, and no text is shorter than it is deep.
  obtain ⟨d, hd⟩ : ∃ d, (mutationText f a fields).length = d + 3 := by
    refine ⟨(mutationText f a fields).length - 3, ?_⟩
    simp [mutationText]
  have hlast : IsGap [' '] ['\x7d'] := isGap_space (stops_cons.mpr rfl)
  have hid := takes_selectionSet (d := d + 1) hlast (stops_cons.mpr rfl) takes_id
  have hgap : IsGap [' '] ['\x7b', ' ', 'i', 'd', ' ', '\x7d', ' ', '\x7d'] :=
    isGap_space (stops_cons.mpr rfl)
  have hobject : Takes (literal false (d + 2))
      ('\x7b' :: (fieldsText fields ++
        ['\x7d', ')', ' ', '\x7b', ' ', 'i', 'd', ' ', '\x7d', ' ', '\x7d']))
      (· = objectLiteral (fields.map numbered))
      [')', ' ', '\x7b', ' ', 'i', 'd', ' ', '\x7d', ' ', '\x7d'] :=
    takes_object hfields (stops_cons.mpr rfl)
  have hargument := takes_argument ha hgap (stops_cons.mpr rfl) hobject
  have hselection := takes_selection hf (isGap_nil (stops_cons.mpr rfl)) (stops_cons.mpr rfl)
    (stops_cons.mpr rfl) hargument (stops_cons.mpr rfl) hid.optional
  have hset := takes_selectionSet (isGap_nil (stops_nil _)) (stops_name hf _) hselection
  have hmutation := takes_mutation hset
  rw [← hd] at hmutation
  refine (takes_document (by simp [mutationText]; decide) hmutation).mono ?_
  rintro _ ⟨_, rfl, l₁, _, rfl, _, rfl, l₂, _, rfl, _, rfl, _, rfl, l₃, rfl⟩
  exact ⟨l₁, l₂, l₃, rfl⟩

end Parser

end MutationInput.Tree
