import MutationInput.Proofs.Provided.Entries
import MutationInput.Proofs.Provided.Failures

/-!
# What a request leaves out

The entry of an argument comes from the values that the selections of the field pass under its
name, whatever else is requested (`get?_of_answer_eq_ok`). So the answer to a request is the answer
to a wider one, or to none, without the arguments that were not requested: `answer_restricts`.
-/
namespace MutationInput

/-- What a context answers to a request of some names. -/
def Context.answer (ctx : Context) (require : Bool) (names : List String) :
    Except ProvidedError ProvidedFields :=
  (((Inspection.all.request names).requiring require).resolve ctx).result

/-- Provided fields are those of `q` in the arguments `names`, and no others. -/
def ProvidedFields.IsRestriction (p q : ProvidedFields) (names : List String) : Prop :=
  ∀ a, p.get? a = if a ∈ names then q.get? a else none

/-- The values that the selections of a field pass under a name, in document order. -/
def Operation.passed (op : Operation) (fieldName argument : String) : List Value :=
  (op.selected fieldName).filterMap fun s => s.argument? argument

/-! ## The entry of one argument -/

/-- A selection has at most one occurrence of an argument, and has it if the argument is looked at
and passed. -/
theorem Field.values_occurrences (s : Field) {requested : List String} (h : requested.Nodup)
    (a : String) :
    ((s.occurrences requested).filter fun o => o.argument = a).map Occurrence.value =
      if requested = [] ∨ a ∈ requested then (s.argument? a).toList else [] := by
  by_cases hr : requested = []
  · subst hr
    rw [if_pos (.inl rfl), occurrences_all, List.filter_map, List.map_map, Field.argument?,
      ← Dict.filter_entries]
    rfl
  · have hself : requested.filter (fun name => name = a) = if a ∈ requested then [a] else [] := by
      rw [List.filter_eq, h.count]
      split <;> rfl
    have hfilter : (s.occurrences requested).filter (fun o => o.argument = a) =
        (requested.filter fun name => name = a).filterMap
          fun name => (s.argument? name).map fun v => ⟨s, name, v⟩ := by
      rw [occurrences_requested s hr, List.filter_filterMap, List.filterMap_filter]
      refine List.filterMap_congr ?_
      intro name _
      by_cases hname : name = a <;> cases s.argument? name <;> simp [hname]
    rw [hfilter, hself]
    by_cases ha : a ∈ requested
    · cases hv : s.argument? a <;> simp [ha, hv]
    · simp [ha, hr]

/-- The occurrences of an argument that is looked at are those of the values passed under it. -/
theorem Operation.values_occurrences (op : Operation) (fieldName : String)
    {requested : List String} (h : requested.Nodup) (a : String) :
    ((op.occurrences fieldName requested).filter fun o => o.argument = a).map Occurrence.value =
      if requested = [] ∨ a ∈ requested then op.passed fieldName a else [] := by
  simp only [occurrences, passed, List.filter_flatMap, List.map_flatMap,
    Field.values_occurrences _ h]
  split
  · exact (List.filterMap_eq_flatMap_toList _ _).symm
  · simp

/-- The entries under a name are those of the occurrences of the argument. -/
theorem Occurrence.filter_contributions (bindings : Variables) (os : List Occurrence)
    (a : String) :
    ((os.filterMap (contribution? bindings)).filter fun e => e.1 = a).map Prod.snd =
      ((os.filter fun o => o.argument = a).map value).filterMap (Value.provided? bindings) := by
  induction os with
  | nil => rfl
  | cons o rest ih =>
      cases hv : o.value.provided? bindings <;> by_cases ha : o.argument = a <;>
        simp [contribution?, hv, ha, ih]

/-- An answer has for each argument that is looked at what the last of its values that contribute
provides. -/
theorem get?_of_answer_eq_ok {ctx : Context} {op : Operation} {fieldName : String}
    {names : List String} {require : Bool} {p : ProvidedFields}
    (hop : ctx.operation = some op) (hk : op.kind = .mutation)
    (hf : ctx.fieldName = some fieldName) (hp : ctx.answer require names = .ok p) (a : String) :
    p.get? a = if names = [] ∨ a ∈ names then
      ((op.passed fieldName a).filterMap (Value.provided? ctx.bindings)).getLast? else none := by
  have hentries := ((Inspection.resolve_eq_ok_iff hop hk hf).mp hp).2.2
  rw [Inspection.requiring, Inspection.requested_all_request] at hentries
  rw [hentries, Dict.get?_ofList_eq_getLast?, Occurrence.filter_contributions,
    Operation.values_occurrences op fieldName (Dict.nodup_eraseDups names)]
  simp only [Dict.eraseDups_eq_nil_iff, List.mem_eraseDups]
  split <;> rfl

/-! ## When there is an answer -/

/-- There is an answer only to a mutation with a known field. -/
theorem Context.exists_of_answer_eq_ok {ctx : Context} {require : Bool} {names : List String}
    {p : ProvidedFields} (hp : ctx.answer require names = .ok p) :
    ∃ op fieldName, ctx.operation = some op ∧ op.kind = .mutation ∧
      ctx.fieldName = some fieldName := by
  rw [answer] at hp
  cases hop : ctx.operation with
  | none =>
      rw [Inspection.result_resolve_no_operation hop] at hp
      cases hp
  | some op =>
      by_cases hk : op.kind = .mutation
      · cases hf : ctx.fieldName with
        | none =>
            rw [Inspection.result_resolve_no_field_name hop hk hf] at hp
            cases hp
        | some fieldName => exact ⟨op, fieldName, rfl, hk, rfl⟩
      · rw [Inspection.result_resolve_not_mutation hop hk] at hp
        cases hp

/-- There is an answer if the field is selected and nothing that is inspected fails. -/
theorem Context.exists_answer_iff {ctx : Context} {op : Operation} {fieldName : String}
    {names : List String} {require : Bool} (hop : ctx.operation = some op)
    (hk : op.kind = .mutation) (hf : ctx.fieldName = some fieldName) :
    (∃ p, ctx.answer require names = .ok p) ↔
      op.selected fieldName ≠ [] ∧ ∀ o, op.Inspects fieldName names o →
        ∀ e, ¬o.Fails ctx.bindings names require e := by
  simp only [answer, Inspection.resolve_eq_ok_iff hop hk hf, exists_and_left, exists_eq,
    and_true, Inspection.requiring, Inspection.requested_all_request, Operation.mem_occurrences,
    Operation.inspects_eraseDups, Occurrence.fails_eraseDups]

/-- If nothing is requested and no binding is required, nothing fails. -/
theorem Occurrence.not_fails_all (bindings : Variables) (o : Occurrence) (e : ProvidedError) :
    ¬o.Fails bindings [] false e := by
  obtain ⟨selection, argument, v⟩ := o
  intro h
  cases h with
  | unbound _ required => cases required
  | literal requested => exact requested rfl
  | bound requested => exact requested rfl

/-- What a request looks at, a wider one looks at too. -/
theorem Operation.Inspects.mono {op : Operation} {fieldName : String} {names wider : List String}
    {o : Occurrence} (h : op.Inspects fieldName names o) (hn : names ≠ []) (hw : names ⊆ wider) :
    op.Inspects fieldName wider o :=
  ⟨h.top_level, h.by_name, h.passed, .inr (hw (h.requested.resolve_left hn))⟩

/-! ## Requests compared -/

/-- A context answers a request of `names`, which is not empty, with a part of what it answers to a
wider one or to none. -/
structure Context.RestrictsTo (ctx : Context) (require : Bool) (names : List String) : Prop where
  /-- Of two answers, the one to the request is the other one without what was not requested. -/
  of_all : ∀ p q, ctx.answer require names = .ok p → ctx.answer require [] = .ok q →
    p.IsRestriction q names
  /-- If no binding is required and the request is answered, so is none. -/
  all_answered : ∀ p, ctx.answer false names = .ok p → ∃ q, ctx.answer false [] = .ok q
  /-- If a wider request is answered, so is this one, by a part of that answer. -/
  of_wider : ∀ wider q, names ⊆ wider → ctx.answer require wider = .ok q →
    ∃ p, ctx.answer require names = .ok p ∧ p.IsRestriction q names
  /-- Requests of the same names are both answered, with the same entries, or both refused. -/
  of_same_names : ∀ others, (∀ n, n ∈ names ↔ n ∈ others) →
    (∃ p q, ctx.answer require names = .ok p ∧ ctx.answer require others = .ok q ∧
        ∀ a, p.get? a = q.get? a) ∨
      ∃ e e', ctx.answer require names = .error e ∧ ctx.answer require others = .error e'

/-- The answer to a request is part of the answer to a wider one. -/
theorem exists_answer_of_subset {ctx : Context} {require : Bool} {names wider : List String}
    {q : ProvidedFields} (hn : names ≠ []) (hw : names ⊆ wider)
    (hq : ctx.answer require wider = .ok q) :
    ∃ p, ctx.answer require names = .ok p ∧ p.IsRestriction q names := by
  obtain ⟨op, fieldName, hop, hk, hf⟩ := Context.exists_of_answer_eq_ok hq
  have hwider : wider ≠ [] := fun h => hn (List.subset_nil.mp (h ▸ hw))
  obtain ⟨hs, hpass⟩ := (Context.exists_answer_iff hop hk hf).mp ⟨q, hq⟩
  have hnames : ∃ p, ctx.answer require names = .ok p := by
    refine (Context.exists_answer_iff hop hk hf).mpr ⟨hs, ?_⟩
    intro o ho e hfail
    exact hpass o (ho.mono hn hw) e (Value.Fails.mono hfail fun _ => hwider)
  obtain ⟨p, hp⟩ := hnames
  refine ⟨p, hp, fun a => ?_⟩
  rw [get?_of_answer_eq_ok hop hk hf hp, get?_of_answer_eq_ok hop hk hf hq]
  by_cases ha : a ∈ names
  · simp [ha, hw ha]
  · simp [ha, hn]

/-- Restrictions of each other to the same names are equal. -/
theorem ProvidedFields.IsRestriction.get?_eq {p q : ProvidedFields} {names others : List String}
    (hpq : p.IsRestriction q names) (hqp : q.IsRestriction p others)
    (h : ∀ n, n ∈ names ↔ n ∈ others) (a : String) : p.get? a = q.get? a := by
  by_cases ha : a ∈ names
  · rw [hpq a, if_pos ha]
  · rw [hpq a, hqp a, if_neg ha, if_neg (mt (h a).mpr ha)]

/-- A request that is not empty selects from what a wider one, or none, provides. -/
theorem answer_restricts (ctx : Context) (require : Bool) {names : List String} (hn : names ≠ []) :
    ctx.RestrictsTo require names where
  of_all := by
    intro p q hp hq a
    obtain ⟨op, fieldName, hop, hk, hf⟩ := Context.exists_of_answer_eq_ok hp
    rw [get?_of_answer_eq_ok hop hk hf hp, get?_of_answer_eq_ok hop hk hf hq]
    simp [hn]
  all_answered := by
    intro p hp
    obtain ⟨op, fieldName, hop, hk, hf⟩ := Context.exists_of_answer_eq_ok hp
    refine (Context.exists_answer_iff hop hk hf).mpr ⟨?_, fun o _ e => ?_⟩
    · exact ((Context.exists_answer_iff hop hk hf).mp ⟨p, hp⟩).1
    · exact o.not_fails_all ctx.bindings e
  of_wider := fun _ _ hw hq => exists_answer_of_subset hn hw hq
  of_same_names := by
    intro others hsame
    have hothers : others ≠ [] := fun h =>
      hn (List.eq_nil_iff_forall_not_mem.mpr fun n hmem => by simpa [h] using (hsame n).mp hmem)
    cases hp : ctx.answer require names with
    | ok p =>
        obtain ⟨q, hq, hqp⟩ := exists_answer_of_subset hothers (fun n => (hsame n).mpr) hp
        obtain ⟨p', hp', hpq⟩ := exists_answer_of_subset hn (fun n => (hsame n).mp) hq
        cases hp.symm.trans hp'
        exact .inl ⟨p, q, rfl, hq, fun a => hpq.get?_eq hqp hsame a⟩
    | error e =>
        cases hq : ctx.answer require others with
        | ok q =>
            obtain ⟨p, hp', -⟩ := exists_answer_of_subset hn (fun n => (hsame n).mp) hq
            cases hp.symm.trans hp'
        | error e' => exact .inr ⟨e, e', rfl, rfl⟩

/-- The requested arguments of `savesTwice` come in the order of the request and with the names
that they have among all arguments. -/
theorem answer_restricts_savesTwice :
    Context.answer ⟨some Operation.savesTwice, some "save", Variables.patch⟩ false
        ["extra", "input"] = .ok (Dict.ofList [("extra", ["note"]), ("input", ["id", "name"])]) ∧
      Context.RestrictsTo ⟨some Operation.savesTwice, some "save", Variables.patch⟩ false
        ["extra", "input"] :=
  ⟨rfl, answer_restricts _ false (by simp)⟩

end MutationInput
