import MutationInput.Dict
import Mathlib.Data.List.Induction
import Mathlib.Data.List.Nodup

/-!
# What a dictionary holds after a sequence of insertions

A dictionary is seen through its names and its look-ups. `keys_ofList` and `get?_ofList_eq_some_iff`
give both for a dictionary that is built from pairs: the names stand where they came first, and
each has the value that came last.
-/
namespace MutationInput.Dict

variable {α : Type}

/-- A dictionary is its entries. -/
theorem eq_of_entries_eq {d e : Dict α} (h : d.entries = e.entries) : d = e := by
  cases d
  cases e
  cases h
  rfl

/-- A look-up finds exactly the entries. -/
theorem get?_eq_some_iff (d : Dict α) (k : String) (v : α) :
    d.get? k = some v ↔ (k, v) ∈ d.entries := by
  obtain ⟨es, nodup⟩ := d
  simp only [get?]
  induction es with
  | nil => simp
  | cons e rest ih =>
      have hrest := List.nodup_cons.mp nodup
      rw [lookup_entry]
      by_cases hk : k = e.1
      · subst hk
        have hnew : (e.1, v) ∉ rest := fun hmem =>
          hrest.1 (List.mem_map.mpr ⟨(e.1, v), hmem, rfl⟩)
        simp [Prod.ext_iff, hnew, eq_comm]
      · have hne : (k, v) ≠ e := fun h => hk (congrArg Prod.fst h)
        rw [if_neg hk, ih hrest.2]
        simp [hne]

/-- The names are those that a look-up finds. -/
theorem mem_keys_iff (d : Dict α) (k : String) : k ∈ d.keys ↔ ∃ v, d.get? k = some v := by
  simp [keys, get?_eq_some_iff]

theorem contains_iff (d : Dict α) (k : String) : d.contains k = true ↔ k ∈ d.keys := by
  simp [contains]

/-- A new name goes to the end. -/
theorem entries_insert_of_notMem {d : Dict α} {k : String} (h : k ∉ d.keys) (v : α) :
    (d.insert k v).entries = d.entries ++ [(k, v)] := by
  obtain ⟨es, nodup⟩ := d
  simp only [keys, insert] at h ⊢
  induction es with
  | nil => rfl
  | cons e rest ih =>
      have hne : e.1 ≠ k := fun he => h (by simp [he])
      have hrest : k ∉ rest.map Prod.fst := fun hm => h (by simp [hm])
      simp [put, hne, ih (List.nodup_cons.mp nodup).2 hrest]

theorem keys_insert_of_notMem {d : Dict α} {k : String} (h : k ∉ d.keys) (v : α) :
    (d.insert k v).keys = d.keys ++ [k] := by
  rw [keys_insert, if_neg h]

/-- The last of the pairs is inserted last. -/
theorem ofList_concat (pairs : List (String × α)) (e : String × α) :
    ofList (pairs ++ [e]) = (ofList pairs).insert e.1 e.2 := by
  simp [ofList, List.foldl_append]

/-- A further name stays if it is new, and goes to the end. -/
theorem eraseDups_concat (names : List String) (n : String) :
    (names ++ [n]).eraseDups = if n ∈ names then names.eraseDups else names.eraseDups ++ [n] := by
  rw [List.eraseDups_append]
  by_cases h : n ∈ names
  · simp [List.removeAll, h]
  · simp [List.removeAll, h, List.eraseDups_cons]

theorem eraseDups_eq_nil_iff (names : List String) : names.eraseDups = [] ↔ names = [] := by
  cases names <;> simp [List.eraseDups_cons]

theorem nodup_eraseDups (names : List String) : names.eraseDups.Nodup := by
  induction names using List.reverseRecOn with
  | nil => simp
  | append_singleton names n ih =>
      rw [eraseDups_concat]
      split
      · exact ih
      · next hn =>
          refine ih.append (List.nodup_singleton n) ?_
          rw [List.disjoint_singleton, List.mem_eraseDups]
          exact hn

/-- Names that do not repeat all stay. -/
theorem eraseDups_of_nodup {names : List String} (h : names.Nodup) : names.eraseDups = names := by
  induction names using List.reverseRecOn with
  | nil => rfl
  | append_singleton names n ih =>
      obtain ⟨hnames, -, hn⟩ := List.nodup_append.mp h
      rw [eraseDups_concat, if_neg fun hmem => hn n hmem n (by simp) rfl, ih hnames]

/-- The names stand in the order of their first pairs. -/
theorem keys_ofList (pairs : List (String × α)) :
    (ofList pairs).keys = (pairs.map Prod.fst).eraseDups := by
  induction pairs using List.reverseRecOn with
  | nil => rfl
  | append_singleton pairs e ih =>
      rw [ofList_concat, keys_insert, ih, List.map_append, List.map_singleton, eraseDups_concat]
      simp only [List.mem_eraseDups]

/-- The value of a name is that of its last pair. -/
theorem get?_ofList (pairs : List (String × α)) (k : String) :
    (ofList pairs).get? k = pairs.reverse.lookup k := by
  induction pairs using List.reverseRecOn with
  | nil => rfl
  | append_singleton pairs e ih =>
      rw [ofList_concat, get?_insert, ih, List.reverse_concat, lookup_entry]

/-- A value is found under a name if a pair holds it and no later pair has the name. -/
theorem get?_ofList_eq_some_iff (pairs : List (String × α)) (k : String) (v : α) :
    (ofList pairs).get? k = some v ↔
      ∃ before after, pairs = before ++ (k, v) :: after ∧ k ∉ after.map Prod.fst := by
  rw [get?_ofList, List.lookup_eq_some_iff]
  constructor
  · rintro ⟨later, earlier, h, hlater⟩
    refine ⟨earlier.reverse, later.reverse, ?_, ?_⟩
    · rw [← List.reverse_reverse pairs, h]
      simp
    · intro hk
      obtain ⟨e, he, rfl⟩ := List.mem_map.mp hk
      simpa using hlater e (List.mem_reverse.mp he)
  · rintro ⟨before, after, rfl, hafter⟩
    refine ⟨after.reverse, before.reverse, by simp, ?_⟩
    intro e he
    have hne : k ≠ e.1 := fun hk =>
      hafter (hk ▸ List.mem_map.mpr ⟨e, List.mem_reverse.mp he, rfl⟩)
    simpa using hne

theorem mem_of_mem_entries_ofList {pairs : List (String × α)} {e : String × α}
    (h : e ∈ (ofList pairs).entries) : e ∈ pairs := by
  obtain ⟨before, after, rfl, -⟩ :=
    (get?_ofList_eq_some_iff pairs e.1 e.2).mp ((get?_eq_some_iff _ e.1 e.2).mpr h)
  simp

/-- The value of a name is that of the last pair with this name. -/
theorem get?_ofList_eq_getLast? (pairs : List (String × α)) (k : String) :
    (ofList pairs).get? k = ((pairs.filter fun e => e.1 = k).map Prod.snd).getLast? := by
  induction pairs using List.reverseRecOn with
  | nil => rfl
  | append_singleton pairs e ih =>
      rw [ofList_concat, get?_insert, ih, List.filter_append]
      by_cases hk : e.1 = k
      · simp [hk]
      · simp [hk, Ne.symm hk]

/-- A name has one entry or none. -/
theorem filter_entries (d : Dict α) (k : String) :
    (d.entries.filter fun e => e.1 = k).map Prod.snd = (d.get? k).toList := by
  obtain ⟨es, nodup⟩ := d
  simp only [get?]
  induction es with
  | nil => rfl
  | cons e rest ih =>
      have hrest := List.nodup_cons.mp nodup
      rw [lookup_entry]
      by_cases hk : e.1 = k
      · have hnone : rest.filter (fun e => e.1 = k) = [] := by
          rw [List.filter_eq_nil_iff]
          intro e' he' hk'
          exact hrest.1 (List.mem_map.mpr ⟨e', he', (of_decide_eq_true hk').trans hk.symm⟩)
        simp [hk, hnone]
      · simp [hk, Ne.symm hk, ih hrest.2]

/-- Dictionaries with related entries, one by one, have related values under each name. -/
theorem rel_get? {β : Type} {R : α → β → Prop} {d : Dict α} {e : Dict β}
    (h : List.Forall₂ (fun x y => x.1 = y.1 ∧ R x.2 y.2) d.entries e.entries) (k : String) :
    Option.Rel R (d.get? k) (e.get? k) := by
  simp only [get?]
  generalize d.entries = xs, e.entries = ys at h ⊢
  induction h with
  | nil => exact .none
  | cons hxy _ ih =>
      rw [lookup_entry, lookup_entry, ← hxy.1]
      split
      · exact .some hxy.2
      · exact ih

/-- Pairs without repeated names are the entries. -/
theorem entries_ofList {pairs : List (String × α)} (h : (pairs.map Prod.fst).Nodup) :
    (ofList pairs).entries = pairs := by
  induction pairs using List.reverseRecOn with
  | nil => rfl
  | append_singleton pairs e ih =>
      rw [List.map_append, List.map_singleton] at h
      obtain ⟨hpairs, -, hnew⟩ := List.nodup_append.mp h
      have hkey : e.1 ∉ (ofList pairs).keys := by
        rw [keys_ofList, List.mem_eraseDups]
        exact fun hm => hnew e.1 hm e.1 (by simp) rfl
      rw [ofList_concat, entries_insert_of_notMem hkey, ih hpairs]

@[simp] theorem keys_mapValues {β : Type} (f : α → β) (d : Dict α) :
    (d.mapValues f).keys = d.keys := by
  simp [keys, mapValues, Function.comp_def]

/-- Dictionaries with the same look-ups have the same entries, in one order or another. -/
theorem perm_of_get?_eq {d e : Dict α} (h : ∀ k, d.get? k = e.get? k) :
    d.entries.Perm e.entries := by
  have hd : d.entries.Nodup := d.nodup.of_map Prod.fst
  have he : e.entries.Nodup := e.nodup.of_map Prod.fst
  rw [List.perm_ext_iff_of_nodup hd he]
  rintro ⟨k, v⟩
  rw [← get?_eq_some_iff, ← get?_eq_some_iff, h k]

theorem put_map {β : Type} (f : α → β) (k : String) (v : α) (es : List (String × α)) :
    put k (f v) (es.map fun e => (e.1, f e.2)) = (put k v es).map fun e => (e.1, f e.2) := by
  induction es with
  | nil => rfl
  | cons e rest ih => by_cases h : e.1 = k <;> simp [put, h, ih]

/-- Pairs with images of values make the dictionary with these images. -/
theorem ofList_map {β : Type} (f : α → β) (pairs : List (String × α)) :
    ofList (pairs.map fun e => (e.1, f e.2)) = (ofList pairs).mapValues f := by
  induction pairs using List.reverseRecOn with
  | nil => rfl
  | append_singleton pairs e ih =>
      rw [List.map_append, List.map_singleton, ofList_concat, ofList_concat, ih]
      exact eq_of_entries_eq (put_map f e.1 e.2 (ofList pairs).entries)

/-- A dictionary is equal to its image if every value is equal to its own. -/
theorem same_mapValues {eq : α → α → Bool} {f : α → α} {d : Dict α}
    (h : ∀ e ∈ d.entries, eq e.2 (f e.2) = true) : d.same eq (d.mapValues f) = true := by
  have hall : ∀ e ∈ d.entries, (d.mapValues f).get? e.1 = some (f e.2) := fun e he =>
    (get?_eq_some_iff _ _ _).mpr (List.mem_map_of_mem he)
  have hsize : d.size = (d.mapValues f).size := by simp [size, mapValues]
  simp only [same, hsize, beq_self_eq_true, Bool.true_and, List.all_eq_true]
  intro e he
  rw [hall e he]
  exact h e he

/-- Erasing takes away the value under its own name and under no other. -/
theorem get?_erase (d : Dict α) (k k' : String) :
    (d.erase k).get? k' = if k' = k then none else d.get? k' := by
  refine Option.ext fun v => ?_
  rw [get?_eq_some_iff]
  by_cases hk : k' = k
  · simp [erase, hk]
  · simp [erase, hk, ← get?_eq_some_iff]

/-- A new value changes nothing under a name that has another one. -/
theorem get?_insertNew (d : Dict α) (k k' : String) (v : α) :
    (d.insertNew k v).get? k' = (d.get? k').or (if k' = k then some v else none) := by
  unfold insertNew
  split
  · next h =>
      rw [contains_iff, mem_keys_iff] at h
      obtain ⟨w, hw⟩ := h
      by_cases hk : k' = k
      · simp [hk, hw]
      · simp [hk]
  · next h =>
      have hnone : d.get? k = none := by
        rw [Option.eq_none_iff_forall_ne_some]
        intro w hw
        exact h ((contains_iff d k).mpr ((mem_keys_iff d k).mpr ⟨w, hw⟩))
      rw [get?_insert]
      by_cases hk : k' = k
      · simp [hk, hnone]
      · simp [hk]

/-- Where the entries of one dictionary are inserted into another, they come before what was
there. -/
theorem get?_foldl_insert (d e : Dict α) (k : String) :
    (e.entries.foldl (fun d x => d.insert x.1 x.2) d).get? k = (e.get? k).or (d.get? k) := by
  obtain ⟨es, nodup⟩ := e
  simp only [get?]
  induction es generalizing d with
  | nil => rfl
  | cons x rest ih =>
      have hrest := List.nodup_cons.mp nodup
      rw [List.foldl_cons, ih (d.insert x.1 x.2) hrest.2, lookup_entry]
      by_cases hk : k = x.1
      · have hnone : rest.lookup k = none := List.lookup_eq_none_iff.mpr fun y hy => by
          have hne : k ≠ y.1 := fun h => hrest.1 (List.mem_map.mpr ⟨y, hy, by rw [← h, hk]⟩)
          simpa using hne
        have hfirst := get?_insert d x.1 k x.2
        rw [get?, if_pos hk] at hfirst
        rw [hnone, if_pos hk, hfirst]
        rfl
      · have hother := get?_insert d x.1 k x.2
        rw [get?, if_neg hk] at hother
        rw [hother, if_neg hk]
        rfl

/-! ## The last value under a name -/

/-- The value is the one in the last pair of its name. -/
def IsLast (pairs : List (String × α)) (k : String) (v : α) : Prop :=
  ∃ before after, pairs = before ++ (k, v) :: after ∧ k ∉ after.map Prod.fst

theorem mem_entries_ofList_iff {pairs : List (String × α)} {k : String} {v : α} :
    (k, v) ∈ (ofList pairs).entries ↔ IsLast pairs k v := by
  rw [← get?_eq_some_iff, get?_ofList_eq_some_iff]
  rfl

theorem exists_isLast {pairs : List (String × α)} {k : String} (h : k ∈ pairs.map Prod.fst) :
    ∃ v, IsLast pairs k v := by
  rw [← List.mem_eraseDups, ← keys_ofList] at h
  obtain ⟨⟨_, v⟩, he, rfl⟩ := List.mem_map.mp h
  exact ⟨v, mem_entries_ofList_iff.mp he⟩

/-- A function that finds the last value under each name; elsewhere it is `d`. -/
theorem exists_last (pairs : List (String × α)) (d : α) :
    ∃ last : String → α, ∀ k ∈ pairs.map Prod.fst, IsLast pairs k (last k) := by
  refine ⟨fun k => ((ofList pairs).get? k).getD d, fun k hk => ?_⟩
  obtain ⟨v, hv⟩ := exists_isLast hk
  have hget : (ofList pairs).get? k = some v := (get?_ofList_eq_some_iff pairs k v).mpr hv
  simp only [hget, Option.getD_some]
  exact hv

theorem IsLast.mem {pairs : List (String × α)} {k : String} {v : α} (h : IsLast pairs k v) :
    (k, v) ∈ pairs := by
  obtain ⟨before, after, rfl, -⟩ := h
  simp

theorem IsLast.mem_keys {pairs : List (String × α)} {k : String} {v : α}
    (h : IsLast pairs k v) : k ∈ pairs.map Prod.fst :=
  List.mem_map.mpr ⟨(k, v), h.mem, rfl⟩

theorem IsLast.unique {pairs : List (String × α)} {k : String} {v v' : α}
    (h : IsLast pairs k v) (h' : IsLast pairs k v') : v = v' := by
  have hv := (get?_ofList_eq_some_iff pairs k v).mpr h
  have hv' := (get?_ofList_eq_some_iff pairs k v').mpr h'
  exact Option.some.inj (hv.symm.trans hv')

/-- The last image is the image of the last. -/
theorem isLast_map_iff {β : Type} {f : α → β} {pairs : List (String × α)} {k : String} {b : β} :
    IsLast (pairs.map fun e => (e.1, f e.2)) k b ↔ ∃ v, IsLast pairs k v ∧ f v = b := by
  simp only [← mem_entries_ofList_iff, ofList_map, mapValues, List.mem_map, Prod.ext_iff,
    Prod.exists]
  constructor
  · rintro ⟨_, v, hmem, rfl, rfl⟩
    exact ⟨v, hmem, rfl⟩
  · rintro ⟨v, hmem, rfl⟩
    exact ⟨k, v, hmem, rfl, rfl⟩

end MutationInput.Dict
