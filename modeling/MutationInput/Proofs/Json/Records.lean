import MutationInput.Proofs.Json.Faithful
import MutationInput.Proofs.Json.Skipping
import Mathlib.Data.List.Find

/-!
# Decoding records from text and from values

A record is decoded alike from a text and from the value that the text denotes, if its members are
and if storing one member does not disturb another: `Regular.faithful_decoder`. In a text the
members come in the order in which they are written, and in a value they are sorted.
-/
namespace MutationInput.Json.Record

variable {α : Type}

/-- Each member of a record is decoded faithfully, and two members are stored in either order. -/
structure Regular (r : Record α) : Prop where
  faithful : ∀ m ∈ r.members, m.decoder.Faithful
  commutes : ∀ m ∈ r.members, ∀ m' ∈ r.members, m.key ≠ m'.key → ∀ {j j' : Json} {f f' : α → α},
    m.decoder.ofJson j = .ok f → m'.decoder.ofJson j' = .ok f' → ∀ x, f (f' x) = f' (f x)

/-- A stored member is decoded faithfully if its value is. -/
theorem faithful_storing {β : Type} {decoder : Decoder β} (h : decoder.Faithful) (key : String)
    (required : Bool) (store : β → α → α) :
    (Member.storing key required decoder store).decoder.Faithful :=
  h.map store

/-- Members that are stored in different places are stored in either order. -/
theorem storing_comm {β γ : Type} {decoder : Decoder β} {decoder' : Decoder γ}
    {store : β → α → α} {store' : γ → α → α} {key key' : String} {required required' : Bool}
    {j j' : Json} {f f' : α → α}
    (hf : (Member.storing key required decoder store).decoder.ofJson j = .ok f)
    (hf' : (Member.storing key' required' decoder' store').decoder.ofJson j' = .ok f')
    (h : ∀ v v' x, store v (store' v' x) = store' v' (store v x)) (x : α) :
    f (f' x) = f' (f x) := by
  obtain ⟨v, -, rfl⟩ := map_eq_ok_iff.mp hf
  obtain ⟨v', -, rfl⟩ := map_eq_ok_iff.mp hf'
  exact h v v' x

/-! ## The order of members -/

/-- Storing the member `e` of an object changes `x` into `y`. -/
def Stores (r : Record α) (e : String × Json) (x y : α) : Prop :=
  match r.find? e.1 with
  | none => y = x
  | some m => ∃ f, m.decoder.ofJson e.2 = .ok f ∧ y = f x

theorem mem_of_find? {r : Record α} {k : String} {m : Member α} (h : r.find? k = some m) :
    m ∈ r.members ∧ m.key = k :=
  ⟨List.mem_of_find?_eq_some h, by simpa using List.find?_some h⟩

theorem storeMembers_cons_eq_ok_iff {r : Record α} {e : String × Json} {es : List (String × Json)}
    {x y : α} : r.storeMembers (e :: es) x = .ok y ↔
      ∃ x', r.Stores e x x' ∧ r.storeMembers es x' = .ok y := by
  simp only [storeMembers, Stores]
  cases r.find? e.1 with
  | none => simp
  | some m =>
      simp only [bind_eq_ok_iff]
      constructor
      · rintro ⟨f, hf, hy⟩
        exact ⟨f x, ⟨f, hf, rfl⟩, hy⟩
      · rintro ⟨x', ⟨f, hf, rfl⟩, hy⟩
        exact ⟨f, hf, hy⟩

theorem Regular.swap {r : Record α} (h : r.Regular) {e e' : String × Json} (hne : e.1 ≠ e'.1)
    {x y z : α} (hy : r.Stores e x y) (hz : r.Stores e' y z) :
    ∃ y', r.Stores e' x y' ∧ r.Stores e y' z := by
  simp only [Stores] at hy hz ⊢
  cases hm : r.find? e.1 with
  | none =>
      simp only [hm] at hy ⊢
      subst hy
      exact ⟨z, hz, rfl⟩
  | some m =>
      simp only [hm] at hy ⊢
      obtain ⟨f, hf, rfl⟩ := hy
      cases hm' : r.find? e'.1 with
      | none =>
          simp only [hm'] at hz ⊢
          subst hz
          exact ⟨x, rfl, f, hf, rfl⟩
      | some m' =>
          simp only [hm'] at hz ⊢
          obtain ⟨f', hf', rfl⟩ := hz
          obtain ⟨hmem, hkey⟩ := mem_of_find? hm
          obtain ⟨hmem', hkey'⟩ := mem_of_find? hm'
          refine ⟨f' x, ⟨f', hf', rfl⟩, f, hf, ?_⟩
          exact (h.commutes m hmem m' hmem' (by rw [hkey, hkey']; exact hne) hf hf' x).symm

/-- The order of members whose names do not repeat does not matter. -/
theorem Regular.storeMembers_perm {r : Record α} (h : r.Regular) {es es' : List (String × Json)}
    (hperm : es.Perm es') (hnodup : (es.map Prod.fst).Nodup) {x y : α}
    (hy : r.storeMembers es x = .ok y) : r.storeMembers es' x = .ok y := by
  induction hperm generalizing x with
  | nil => exact hy
  | cons e _ ih =>
      obtain ⟨x', hx', hy⟩ := storeMembers_cons_eq_ok_iff.mp hy
      exact storeMembers_cons_eq_ok_iff.mpr ⟨x', hx', ih (List.nodup_cons.mp hnodup).2 hy⟩
  | swap e e' es =>
      -- Both orders end in the same record, through different ones after the first member.
      obtain ⟨x', hx', hy⟩ := storeMembers_cons_eq_ok_iff.mp hy
      obtain ⟨x'', hx'', hy⟩ := storeMembers_cons_eq_ok_iff.mp hy
      have hne : e'.1 ≠ e.1 := fun heq =>
        (List.nodup_cons.mp hnodup).1 (List.mem_map.mpr ⟨e, List.mem_cons_self, heq.symm⟩)
      obtain ⟨z, hz, hz'⟩ := h.swap hne hx' hx''
      exact storeMembers_cons_eq_ok_iff.mpr
        ⟨z, hz, storeMembers_cons_eq_ok_iff.mpr ⟨x'', hz', hy⟩⟩
  | trans hperm _ ih ih' =>
      exact ih' ((hperm.map Prod.fst).nodup_iff.mp hnodup) (ih hnodup hy)

/-- Members whose names do not repeat are stored alike when they are sorted. -/
theorem Regular.storeMembers_sortMembers {r : Record α} (h : r.Regular)
    {es : List (String × Json)} (hnodup : (es.map Prod.fst).Nodup) {x y : α} :
    r.storeMembers es x = .ok y ↔ r.storeMembers (sortMembers es) x = .ok y := by
  have hperm := perm_sortMembers hnodup
  exact ⟨h.storeMembers_perm hperm.symm hnodup,
    h.storeMembers_perm hperm ((hperm.map Prod.fst).nodup_iff.mpr hnodup)⟩

/-! ## Objects -/

/-- What one member of a text does to the names seen and the record: a name that was seen before is
refused. -/
def stepMember (r : Record α) (state : List String × α) (e : String × Json) :
    Except Mismatch (List String × α) :=
  match r.find? e.1 with
  | none => .ok state
  | some m =>
    if state.1.contains e.1 then .error (.missingField e.1)
    else (m.decoder.ofJson e.2.canonical).map fun f => (e.1 :: state.1, f state.2)

/-- The names seen after further ones. -/
def seeing (r : Record α) (seen keys : List String) : List String :=
  keys.foldl (fun seen key => if (r.find? key).isSome then key :: seen else seen) seen

theorem mem_seeing_iff (r : Record α) (seen keys : List String) (key : String) :
    key ∈ r.seeing seen keys ↔ key ∈ seen ∨ key ∈ keys ∧ (r.find? key).isSome = true := by
  induction keys generalizing seen with
  | nil => simp [seeing]
  | cons k keys ih =>
      have hstep : r.seeing seen (k :: keys) =
          r.seeing (if (r.find? k).isSome then k :: seen else seen) keys := rfl
      rw [hstep, ih]
      by_cases hk : (r.find? k).isSome = true
      · rw [if_pos hk, List.mem_cons, List.mem_cons]
        constructor
        · rintro ((rfl | hseen) | hkeys)
          · exact .inr ⟨.inl rfl, hk⟩
          · exact .inl hseen
          · exact .inr ⟨.inr hkeys.1, hkeys.2⟩
        · rintro (hseen | ⟨rfl | hkeys, hknown⟩)
          · exact .inl (.inr hseen)
          · exact .inl (.inl rfl)
          · exact .inr ⟨hkeys, hknown⟩
      · rw [if_neg hk, List.mem_cons]
        constructor
        · rintro (hseen | hkeys)
          · exact .inl hseen
          · exact .inr ⟨.inr hkeys.1, hkeys.2⟩
        · rintro (hseen | ⟨rfl | hkeys, hknown⟩)
          · exact .inl hseen
          · exact absurd hknown hk
          · exact .inr ⟨hkeys, hknown⟩

/-- Members whose names do not repeat are stored one after the other. -/
theorem foldlM_stepMember (r : Record α) {members : List (String × Json)} {seen : List String}
    (hnodup : (members.map Prod.fst).Nodup) (hseen : ∀ e ∈ members, e.1 ∉ seen) (x : α) :
    members.foldlM r.stepMember (seen, x) = (r.storeMembers (canonicalMembers members) x).map
      fun y => (r.seeing seen (members.map Prod.fst), y) := by
  induction members generalizing seen x with
  | nil => rfl
  | cons e members ih =>
      obtain ⟨hnew, hrest⟩ := List.nodup_cons.mp hnodup
      have he : e.1 ∉ seen := hseen e List.mem_cons_self
      have hseeing : r.seeing seen ((e :: members).map Prod.fst) =
          r.seeing (if (r.find? e.1).isSome then e.1 :: seen else seen) (members.map Prod.fst) :=
        rfl
      rw [List.foldlM_cons, canonicalMembers, hseeing]
      simp only [stepMember, storeMembers]
      cases hm : r.find? e.1 with
      | none => exact ih hrest (fun e' he' => hseen e' (List.mem_cons_of_mem e he')) x
      | some m =>
          simp only [List.contains_eq_mem, decide_eq_false he, Bool.false_eq_true, if_false]
          cases m.decoder.ofJson e.2.canonical with
          | error mismatch => rfl
          | ok f =>
              refine ih hrest (fun e' he' hmem => ?_) (f x)
              rcases List.mem_cons.mp hmem with heq | hmem
              · exact hnew (List.mem_map.mpr ⟨e', he', heq⟩)
              · exact hseen e' (List.mem_cons_of_mem e he') hmem

section Comparison

variable {R : ∀ {α : Type}, Source → Except Mismatch α → Except Fault (α × Source) → Prop}

/-- A member is read as it is stored, if its value is. -/
theorem compare_readMember (hR : Comparison @R) (r : Record α) {d : Nat} {k : String} {j : Json}
    {s rest : Source} (hread : expectColon s >>= readTree d = .ok (j, rest))
    (h : ∀ m ∈ r.members, ∀ t, readTree d t = .ok (j, rest) →
      R rest (m.decoder.ofJson j.canonical) (m.decoder.read d t)) (state : List String × α) :
    R rest (r.stepMember state (k, j)) (r.readMember d state k s) := by
  obtain ⟨t, hcolon, hvalue⟩ := bind_eq_ok_iff.mp hread
  simp only [stepMember, readMember, hcolon]
  cases hm : r.find? k with
  | none =>
      simp only [bind, Except.bind, skipValue_of_readTree hvalue]
      exact hR.ok _ state
  | some m =>
      dsimp only
      split
      · exact hR.error _ _ _
      · exact hR.map (h m (mem_of_find? hm).1 t hvalue) fun f => (k :: state.1, f state.2)

end Comparison

theorem missing?_congr (r : Record α) {seen seen' : List String}
    (h : ∀ key, (r.find? key).isSome = true → (key ∈ seen ↔ key ∈ seen')) :
    r.missing? seen = r.missing? seen' := by
  have hknown : ∀ key ∈ r.requiredKeys, (r.find? key).isSome = true := by
    intro key hkey
    obtain ⟨m, hm, rfl⟩ := List.mem_map.mp hkey
    exact List.find?_isSome.mpr ⟨m, (List.mem_filter.mp hm).1, by simp⟩
  refine List.find?_congr fun key hkey => ?_
  simp only [List.contains_eq_mem, h key (hknown key hkey)]

/-- An object is read as it is decoded. -/
theorem Regular.accords_object {r : Record α} (h : r.Regular) {d : Nat} {t rest : Source}
    {members : List (String × Json)} (hread : readEntries (readTree d) t = .ok (members, rest))
    (hnodup : (members.map Prod.fst).Nodup) (hvalues : ∀ e ∈ members, e.2.Distinct) :
    Accords rest (r.ofJson (ofMembers (canonicalMembers members)))
      (readObject readString (r.readMember d) ([], r.blank) t >>=
        fun (((seen, x), s) : _ × Source) =>
          match r.missing? seen with
          | some _ => throw .mismatch
          | none => return (x, s)) := by
  have hkeys : (canonicalMembers members).map Prod.fst = members.map Prod.fst := by
    simp [canonicalMembers_eq_map, Function.comp_def]
  have hnodup' : ((canonicalMembers members).map Prod.fst).Nodup := hkeys.symm ▸ hnodup
  have hmissing : r.missing? (r.seeing [] (members.map Prod.fst)) =
      r.missing? ((sortMembers (canonicalMembers members)).map Prod.fst) := by
    refine r.missing?_congr fun key hknown => ?_
    rw [mem_seeing_iff, ((perm_sortMembers hnodup').map Prod.fst).mem_iff, hkeys]
    simp [hknown]
  have hloop := accords_readObject hread (shrinks_readTree d) (fun _ _ _ hk => hk)
    (fun state _ k j _ _ hj hmember => r.compare_readMember Accords.comparison hmember
      (fun m hm _ hread => h.faithful m hm hread (hvalues (k, j) hj)) state)
    ([], r.blank)
  rw [r.foldlM_stepMember hnodup (by simp) r.blank] at hloop
  have hall : Accords rest _ _ := hloop.bind
    (f := fun p =>
      match r.missing? p.1 with
      | some key => .error (.missingField key)
      | none => .ok p.2)
    (g := fun (((seen, x), s) : _ × Source) =>
      match r.missing? seen with
      | some _ => throw .mismatch
      | none => return (x, s)) fun p _ => by
        dsimp only
        split
        · exact .error _ _
        · exact .ok _
  -- The text stores the members as they are written, the value stores them sorted.
  refine hall.congr fun x => ?_
  simp only [ofJson, ofMembers, bind_eq_ok_iff, map_eq_ok_iff, h.storeMembers_sortMembers hnodup']
  constructor
  · rintro ⟨_, ⟨y, hy, rfl⟩, hx⟩
    refine ⟨y, hy, ?_⟩
    rw [← hmissing]
    exact hx
  · rintro ⟨y, hy, hx⟩
    refine ⟨_, ⟨y, hy, rfl⟩, ?_⟩
    rw [← hmissing] at hx
    exact hx

/-! ## Arrays -/

/-- Without further items a record is complete if no further member has to be there. -/
theorem storeItems_nil (r : Record α) (n : Nat) (ms : List (Member α)) (x : α) :
    (ms.any (·.required) = false ∧ r.storeItems n ms [] x = .ok x) ∨
      (ms.any (·.required) = true ∧ ∃ e, r.storeItems n ms [] x = .error e) := by
  induction ms generalizing n with
  | nil => exact .inl ⟨rfl, rfl⟩
  | cons m ms ih =>
      rw [List.any_cons, storeItems]
      cases hm : m.required with
      | true => exact .inr ⟨rfl, _, rfl⟩
      | false => simpa using ih (n + 1)

section Comparison

variable {R : ∀ {α : Type}, Source → Except Mismatch α → Except Fault (α × Source) → Prop}

/-- At the closing bracket no more items are stored. -/
theorem compare_close (hR : Comparison @R) (r : Record α) {d : Nat} {s rest : Source}
    (hclose : skipGap s = .char ']' :: rest) (isFirst : Bool) (ms : List (Member α)) (n : Nat)
    (x : α) : R rest (r.storeItems n ms [] x) (readItems d isFirst ms x s) := by
  cases ms with
  | nil =>
      simp only [storeItems, readItems, hclose]
      exact hR.ok _ x
  | cons m ms =>
      simp only [readItems, hclose]
      rw [← List.any_cons]
      rcases r.storeItems_nil n (m :: ms) x with ⟨hany, hok⟩ | ⟨hany, e, herror⟩
      · rw [hok, if_neg (by simp [hany])]
        exact hR.ok _ x
      · rw [herror, if_pos hany]
        exact hR.error _ _ _

/-- What stands behind an item is read as it is stored, if each value is. -/
theorem compare_readItems (hR : Comparison @R) (r : Record α) {d : Nat} {ms : List (Member α)}
    {s rest : Source} {items : List Json} (hitems : Behind (readTree d) s items rest)
    (h : ∀ m ∈ ms, ∀ j ∈ items, ∀ t rest, readTree d t = .ok (j, rest) →
      R rest (m.decoder.ofJson j.canonical) (m.decoder.read d t)) (n : Nat) (x : α) :
    R rest (r.storeItems n ms (canonicalItems items) x) (readItems d false ms x s) := by
  induction ms generalizing s items n x with
  | nil =>
      rcases hitems with ⟨rfl, hclose⟩ | ⟨t, hcomma, -, -, hmore⟩
      · exact r.compare_close hR hclose false [] n x
      · obtain ⟨j, items, s', rfl, -, -⟩ := hmore.exists_behind
        simp only [readItems, hcomma]
        exact hR.error _ _ _
  | cons m ms ih =>
      rcases hitems with ⟨rfl, hclose⟩ | ⟨t, hcomma, hempty, hbracket, hmore⟩
      · exact r.compare_close hR hclose false (m :: ms) n x
      · obtain ⟨j, items, s', rfl, hread, hbehind⟩ := hmore.exists_behind
        obtain ⟨hm, hms⟩ := List.forall_mem_cons.mp h
        simp only [canonicalItems, storeItems, readItems, hcomma]
        refine hR.bind (hm j List.mem_cons_self _ _ hread) fun f => ?_
        exact ih hbehind (fun m' hm' j' hj' => hms m' hm' j' (List.mem_cons_of_mem j hj')) (n + 1)
          (f x)

/-- An array is read as it is decoded, if each value in it is. -/
theorem compare_array (hR : Comparison @R) (r : Record α) {d : Nat} {ms : List (Member α)}
    {t rest : Source} {items : List Json} (hread : readArray (readTree d) t = .ok (items, rest))
    (h : ∀ m ∈ ms, ∀ j ∈ items, ∀ t rest, readTree d t = .ok (j, rest) →
      R rest (m.decoder.ofJson j.canonical) (m.decoder.read d t)) (x : α) :
    R rest (r.storeItems 0 ms (canonicalItems items) x) (readItems d true ms x t) := by
  unfold readArray at hread
  split at hread
  · cases hread
  · next hclose =>
      cases hread
      exact r.compare_close hR hclose true ms 0 x
  · next hempty hbracket =>
      obtain ⟨j, items, s', rfl, hread, hbehind⟩ := (items_of_readItems hread).1.exists_behind
      cases ms with
      | nil =>
          simp only [readItems]
          exact hR.error _ _ _
      | cons m ms =>
          obtain ⟨hm, hms⟩ := List.forall_mem_cons.mp h
          have hfirst : R rest (r.storeItems 0 (m :: ms) (canonicalItems (j :: items)) x)
              (m.decoder.read d (skipGap t) >>= fun p => readItems d false ms (p.1 x) p.2) :=
            hR.bind (hm j List.mem_cons_self _ _ hread) fun f =>
              r.compare_readItems hR hbehind
                (fun m' hm' j' hj' => hms m' hm' j' (List.mem_cons_of_mem j hj')) 1 (f x)
          -- A comma in the first place is left to the reader of the first member.
          simp only [readItems]
          split
          · next h => exact absurd h hempty
          · next h => exact absurd h (hbracket _)
          · next h =>
              rw [h] at hfirst
              exact hfirst
          · exact hfirst

end Comparison

/-- A record that is regular is decoded alike from text and from values. -/
theorem Regular.faithful_decoder {r : Record α} (h : r.Regular) : r.decoder.Faithful := by
  intro d s j rest hread hdistinct
  change Accords rest (r.ofJson j.canonical) (r.read d s)
  cases treeAt_of_readTree hread with
  | scalar no_array no_object is_scalar read =>
      rw [canonical_of_isScalar is_scalar]
      simp only [Record.read]
      cases j with
      | array items => exact is_scalar.elim
      | object members => exact is_scalar.elim
      | _ => exact accords_refuse _ _ _
  | @array d _ t _ items bracket read =>
      cases hdistinct with
      | scalar is_scalar => exact is_scalar.elim
      | array items_distinct =>
          simp only [Record.read, bracket]
          exact r.compare_array Accords.comparison read
            (fun m hm j hj _ _ hread => h.faithful m hm hread (items_distinct j hj)) r.blank
  | @object d _ t _ members brace read =>
      cases hdistinct with
      | scalar is_scalar => exact is_scalar.elim
      | object nodup values_distinct =>
          simp only [Record.read, brace]
          exact h.accords_object read nodup values_distinct

end MutationInput.Json.Record
