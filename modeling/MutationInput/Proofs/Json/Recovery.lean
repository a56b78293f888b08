import MutationInput.Proofs.Json.Alike
import MutationInput.Proofs.Json.Records

/-!
# Decoding what was encoded

An encoder writes the members of an object in an order of its own and leaves out those that are
absent. A decoder *recovers* a value from its encoding if it decodes it from the members as they
are written and as they are sorted. Each way of building a decoder from others has a rule for that,
and a record is recovered if its members are, one after the other: `Record.Regular.recovers`.

The other way round a decoder *yields* a property if all that it decodes from sorted values has it.
-/
namespace MutationInput.Json

namespace Decoder

variable {α β : Type} {d : Decoder α} {j : Json} {x : α}

/-- The decoder makes `x` of `j`, in the order in which the members are written and in ascending
order of their names. -/
structure Recovers (d : Decoder α) (j : Json) (x : α) : Prop where
  written : d.ofJson j = .ok x
  sorted : d.ofJson j.canonical = .ok x

theorem recovers_of_isCanonical (hj : j.IsCanonical) (h : d.ofJson j = .ok x) : d.Recovers j x :=
  ⟨h, hj.canonical_eq.symm ▸ h⟩

theorem Recovers.map (h : d.Recovers j x) (f : α → β) : (d.map f).Recovers j (f x) :=
  ⟨map_eq_ok_iff.mpr ⟨x, h.written, rfl⟩, map_eq_ok_iff.mpr ⟨x, h.sorted, rfl⟩⟩

/-- What is there is what any value but null stands for. -/
theorem optional_eq_ok_some_iff :
    d.optional.ofJson j = .ok (some x) ↔ j ≠ .null ∧ d.ofJson j = .ok x := by
  cases j <;> simp [optional, map_eq_ok_iff]

theorem Recovers.optional (h : d.Recovers j x) (hj : j ≠ .null) :
    d.optional.Recovers j (some x) := by
  have hcanonical : j.canonical ≠ .null := by
    cases j <;> simp_all [canonical, ofMembers]
  exact ⟨optional_eq_ok_some_iff.mpr ⟨hj, h.written⟩,
    optional_eq_ok_some_iff.mpr ⟨hcanonical, h.sorted⟩⟩

/-- A list is recovered if its items are. -/
theorem recovers_list {encode : α → Json} {xs : List α}
    (h : ∀ x ∈ xs, d.Recovers (encode x) x) : d.list.Recovers (.array (xs.map encode)) xs where
  written := by
    simp only [list, mapM_eq_ok_iff, List.forall₂_map_left_iff, List.forall₂_same]
    exact fun x hx => (h x hx).written
  sorted := by
    simp only [list, canonical, canonicalItems_eq_map, mapM_eq_ok_iff, List.forall₂_map_left_iff,
      List.forall₂_same]
    exact fun x hx => (h x hx).sorted

/-- The members of any object are its entries. -/
theorem entries_value_eq_ok (members : List (String × Json)) :
    value.entries.ofJson (.object members) = .ok members := by
  simp only [entries, mapM_eq_ok_iff, List.forall₂_same]
  exact fun e _ => rfl

/-- Members that are sorted at every depth are recovered as they are. -/
theorem recovers_sortedEntries {members : List (String × Json)}
    (h : (Json.object members).IsCanonical) :
    (value.entries.map sortMembers).Recovers (.object members) members := by
  refine recovers_of_isCanonical h (map_eq_ok_iff.mpr ⟨members, entries_value_eq_ok members, ?_⟩)
  rw [IsCanonical] at h
  exact sortMembers_of_ascending h.1

/-! ## Properties of what is decoded -/

/-- All that is decoded from sorted values has the property. -/
def Yields (d : Decoder α) (P : α → Prop) : Prop :=
  ∀ j x, j.IsCanonical → d.ofJson j = .ok x → P x

theorem yields_value : value.Yields IsCanonical := by
  intro j x hj h
  cases h
  exact hj

theorem Yields.map {P : β → Prop} {f : α → β} (h : d.Yields fun x => P (f x)) :
    (d.map f).Yields P := by
  intro j y hj hy
  obtain ⟨x, hx, rfl⟩ := map_eq_ok_iff.mp hy
  exact h j x hj hx

theorem Yields.optional {P : α → Prop} (h : d.Yields P) :
    d.optional.Yields fun o => ∀ x ∈ o, P x := by
  rintro j _ hj ho x rfl
  exact h j x hj (optional_eq_ok_some_iff.mp ho).2

theorem Yields.list {P : α → Prop} (h : d.Yields P) : d.list.Yields fun xs => ∀ x ∈ xs, P x := by
  intro j xs hj hxs
  cases j with
  | array items =>
      rw [IsCanonical, allCanonical_iff] at hj
      simp only [Decoder.list, mapM_eq_ok_iff] at hxs
      induction hxs with
      | nil => simp
      | cons hx _ ih =>
          rw [List.forall_mem_cons] at hj ⊢
          exact ⟨h _ _ hj.1 hx, ih hj.2⟩
  | _ => cases hxs

theorem yields_sortedEntries :
    (value.entries.map sortMembers).Yields fun members => (Json.object members).IsCanonical := by
  intro j sorted hj h
  obtain ⟨members, hmembers, rfl⟩ := map_eq_ok_iff.mp h
  cases j with
  | object written =>
      rw [entries_value_eq_ok] at hmembers
      cases hmembers
      rw [sortMembers_of_ascending (by rw [IsCanonical] at hj; exact hj.1)]
      exact hj
  | _ => cases hmembers

end Decoder

namespace Record

variable {α : Type} {r : Record α}

/-! ## Recovering a record -/

theorem storeMembers_append {es es' : List (String × Json)} {x z : α} :
    r.storeMembers (es ++ es') x = .ok z ↔
      ∃ y, r.storeMembers es x = .ok y ∧ r.storeMembers es' y = .ok z := by
  induction es generalizing x with
  | nil => simp [storeMembers]
  | cons e es ih =>
      simp only [List.cons_append, storeMembers_cons_eq_ok_iff, ih]
      constructor
      · rintro ⟨x', hx', y, hy, hz⟩
        exact ⟨y, ⟨x', hx', hy⟩, hz⟩
      · rintro ⟨y, ⟨x', hx', hy⟩, hz⟩
        exact ⟨x', hx', y, hy, hz⟩

/-- The members make `y` of `x` as they are written and with sorted values. -/
structure Recovers (r : Record α) (members : List (String × Json)) (x y : α) : Prop where
  written : r.storeMembers members x = .ok y
  sorted : r.storeMembers (canonicalMembers members) x = .ok y

theorem Recovers.append {es es' : List (String × Json)} {x y z : α} (h : r.Recovers es x y)
    (h' : r.Recovers es' y z) : r.Recovers (es ++ es') x z where
  written := storeMembers_append.mpr ⟨y, h.written, h'.written⟩
  sorted := by
    rw [canonicalMembers_eq_map, List.map_append, ← canonicalMembers_eq_map,
      ← canonicalMembers_eq_map]
    exact storeMembers_append.mpr ⟨y, h.sorted, h'.sorted⟩

theorem recovers_member {β : Type} {required : Bool} {d : Decoder β} {store : β → α → α}
    {j : Json} {v : β} (key : String) (x : α)
    (find : r.find? key = some (.storing key required d store)) (h : d.Recovers j v) :
    r.Recovers [(key, j)] x (store v x) := by
  have hmember := h.map store
  have hstore : ∀ {j}, (d.map store).ofJson j = .ok (store v) →
      r.storeMembers [(key, j)] x = .ok (store v x) := by
    intro j hj
    rw [storeMembers_cons_eq_ok_iff]
    refine ⟨store v x, ?_, rfl⟩
    simp only [Stores, find]
    exact ⟨store v, hj, rfl⟩
  exact ⟨hstore hmember.written, hstore hmember.sorted⟩

/-- A record is recovered from an object whose members make it of the blank record, in whichever
order they come. -/
theorem Regular.recovers (h : r.Regular) {members : List (String × Json)} {x : α}
    (hnodup : (members.map Prod.fst).Nodup) (hmembers : r.Recovers members r.blank x)
    (hcomplete : r.missing? (members.map Prod.fst) = none) :
    r.decoder.Recovers (.object members) x := by
  have hkeys : (canonicalMembers members).map Prod.fst = members.map Prod.fst := by
    simp [canonicalMembers_eq_map, Function.comp_def]
  have hnodup' : ((canonicalMembers members).map Prod.fst).Nodup := hkeys.symm ▸ hnodup
  have hcomplete' : r.missing? ((sortMembers (canonicalMembers members)).map Prod.fst) = none := by
    rw [← hcomplete]
    refine r.missing?_congr fun key _ => ?_
    rw [((perm_sortMembers hnodup').map Prod.fst).mem_iff, hkeys]
  have hobject : ∀ {es : List (String × Json)}, r.storeMembers es r.blank = .ok x →
      r.missing? (es.map Prod.fst) = none → r.decoder.ofJson (.object es) = .ok x := by
    intro es hes hall
    simp only [decoder, ofJson, hes, hall, bind, Except.bind]
    rfl
  exact ⟨hobject hmembers.written hcomplete,
    hobject ((h.storeMembers_sortMembers hnodup').mp hmembers.sorted) hcomplete'⟩

/-! ## Properties of a record that is decoded -/

section Yields

variable {P : α → Prop}

/-- Storing a member keeps the property. -/
abbrev Yields (r : Record α) (P : α → Prop) : Prop :=
  ∀ m ∈ r.members, m.decoder.Yields fun f => ∀ x, P x → P (f x)

theorem Yields.storeMembers (h : r.Yields P) {es : List (String × Json)} {x y : α}
    (hes : ∀ e ∈ es, e.2.IsCanonical) (hy : r.storeMembers es x = .ok y) (hx : P x) : P y := by
  induction es generalizing x with
  | nil =>
      cases hy
      exact hx
  | cons e es ih =>
      obtain ⟨he, hes⟩ := List.forall_mem_cons.mp hes
      obtain ⟨x', hx', hy⟩ := storeMembers_cons_eq_ok_iff.mp hy
      refine ih hes hy ?_
      simp only [Stores] at hx'
      split at hx'
      · exact hx' ▸ hx
      · next m hm =>
          obtain ⟨f, hf, rfl⟩ := hx'
          exact h m (mem_of_find? hm).1 e.2 f he hf x hx

theorem Yields.storeItems (h : r.Yields P) {n : Nat} {ms : List (Member α)}
    (hms : ∀ m ∈ ms, m ∈ r.members) {items : List Json} {x y : α}
    (hitems : ∀ j ∈ items, j.IsCanonical) (hy : r.storeItems n ms items x = .ok y) (hx : P x) :
    P y := by
  induction ms generalizing n items x with
  | nil =>
      cases items with
      | nil =>
          cases hy
          exact hx
      | cons j items => cases hy
  | cons m ms ih =>
      obtain ⟨hm, hms⟩ := List.forall_mem_cons.mp hms
      cases items with
      | nil =>
          rw [Record.storeItems] at hy
          split at hy
          · cases hy
          · exact ih hms hitems hy hx
      | cons j items =>
          obtain ⟨hj, hitems⟩ := List.forall_mem_cons.mp hitems
          obtain ⟨f, hf, hy⟩ := bind_eq_ok_iff.mp hy
          exact ih hms hitems hy (h m hm j f hj hf x hx)

/-- A property of the blank record that every member keeps holds of the record that is decoded from
an object or an array. -/
theorem Yields.decoder (h : r.Yields P) (hblank : P r.blank) : r.decoder.Yields P := by
  intro j x hj hx
  cases j with
  | object members =>
      rw [IsCanonical, membersCanonical_iff] at hj
      obtain ⟨y, hy, hx⟩ := bind_eq_ok_iff.mp hx
      split at hx
      · cases hx
      · cases hx
        exact h.storeMembers hj.2 hy hblank
  | array items =>
      rw [IsCanonical, allCanonical_iff] at hj
      exact h.storeItems (fun _ hm => hm) hj hx hblank
  | _ => cases hx

end Yields

end Record

end MutationInput.Json
