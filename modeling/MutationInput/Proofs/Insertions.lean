import MutationInput.Proofs.Dict
import Mathlib.Data.Finset.Card

/-!
# Dictionaries and what was inserted into them

After any insertions, each name stands where it came first and has the value that came last, and
every insertion has given back the value that it took the place of: `history_insertAll`.
-/
namespace MutationInput

/-! ## Names in the order of their first appearance -/

/-- The names are those of the list, each once, in the order in which they first appear there. -/
structure InFirstOrder (names all : List String) : Prop where
  nodup : names.Nodup
  mem_iff : ∀ k, k ∈ names ↔ k ∈ all
  ordered : names.Pairwise fun a b => all.idxOf a < all.idxOf b

theorem pairwise_idxOf_eraseDups (all : List String) :
    all.eraseDups.Pairwise fun a b => all.idxOf a < all.idxOf b := by
  induction all using List.reverseRecOn with
  | nil => exact .nil
  | append_singleton all n ih =>
      have hkept : all.eraseDups.Pairwise fun a b =>
          (all ++ [n]).idxOf a < (all ++ [n]).idxOf b := by
        refine ih.imp_of_mem fun ha hb hab => ?_
        rw [List.mem_eraseDups] at ha hb
        rwa [List.idxOf_append_of_mem ha, List.idxOf_append_of_mem hb]
      rw [Dict.eraseDups_concat]
      split
      · exact hkept
      · next hn =>
          refine List.pairwise_append.mpr ⟨hkept, List.pairwise_singleton _ _, ?_⟩
          intro a ha b hb
          rw [List.mem_eraseDups] at ha
          obtain rfl := List.mem_singleton.mp hb
          rw [List.idxOf_append_of_mem ha, List.idxOf_append_of_notMem hn]
          exact Nat.lt_add_right _ (List.idxOf_lt_length_of_mem ha)

theorem inFirstOrder_eraseDups (all : List String) : InFirstOrder all.eraseDups all where
  nodup := Dict.nodup_eraseDups all
  mem_iff := fun _ => List.mem_eraseDups
  ordered := pairwise_idxOf_eraseDups all

/-- There is one list of the names in this order. -/
theorem InFirstOrder.eq_eraseDups {names all : List String} (h : InFirstOrder names all) :
    names = all.eraseDups := by
  have hperm : names.Perm all.eraseDups := by
    rw [List.perm_ext_iff_of_nodup h.nodup (Dict.nodup_eraseDups all)]
    intro k
    rw [h.mem_iff, List.mem_eraseDups]
  refine hperm.eq_of_pairwise (fun a b _ _ hab hba => ?_) h.ordered (pairwise_idxOf_eraseDups all)
  exact absurd hba (Nat.lt_asymm hab)

namespace Dict

variable {α : Type}

/-! ## Insertions one after the other -/

/-- Inserts pairs one after the other: what each insertion gives back, and the dictionary at the
end. -/
def insertAll (d : Dict α) : List (String × α) → List (Option α) × Dict α
  | [] => ([], d)
  | e :: pairs =>
    let first := d.exchange e.1 e.2
    let others := insertAll first.2 pairs
    (first.1 :: others.1, others.2)

theorem insertAll_cons (d : Dict α) (e : String × α) (pairs : List (String × α)) :
    d.insertAll (e :: pairs) =
      (d.get? e.1 :: ((d.insert e.1 e.2).insertAll pairs).1,
        ((d.insert e.1 e.2).insertAll pairs).2) := by
  rw [insertAll, exchange_eq]

theorem insertAll_snd (d : Dict α) (pairs : List (String × α)) :
    (d.insertAll pairs).2 = pairs.foldl (fun d e => d.insert e.1 e.2) d := by
  induction pairs generalizing d with
  | nil => rfl
  | cons e pairs ih => rw [insertAll_cons, List.foldl_cons, ih]

/-- The last insertion is one into what those before it leave. -/
theorem insertAll_concat_snd (d : Dict α) (pairs : List (String × α)) (e : String × α) :
    (d.insertAll (pairs ++ [e])).2 = (d.insertAll pairs).2.insert e.1 e.2 := by
  simp only [insertAll_snd, List.foldl_append, List.foldl_cons, List.foldl_nil]

theorem length_insertAll_fst (d : Dict α) (pairs : List (String × α)) :
    (d.insertAll pairs).1.length = pairs.length := by
  induction pairs generalizing d with
  | nil => rfl
  | cons e pairs ih => rw [insertAll_cons, List.length_cons, ih, List.length_cons]

/-- An insertion gives back what those before it left under its name. -/
theorem getElem?_insertAll_fst (d : Dict α) (pairs : List (String × α)) (i : Nat)
    (hi : i < pairs.length) :
    (d.insertAll pairs).1[i]? = some ((d.insertAll (pairs.take i)).2.get? pairs[i].1) := by
  induction pairs generalizing d i with
  | nil => cases hi
  | cons e pairs ih =>
      rw [insertAll_cons]
      cases i with
      | zero => rfl
      | succ i =>
          rw [List.getElem?_cons_succ, List.getElem_cons_succ, List.take_succ_cons, insertAll_cons]
          exact ih _ i (Nat.lt_of_succ_lt_succ hi)

/-- The names stand in the order of their first insertion, after those that were there. -/
theorem keys_insertAll (d : Dict α) (pairs : List (String × α)) :
    (d.insertAll pairs).2.keys = (d.keys ++ pairs.map Prod.fst).eraseDups := by
  induction pairs using List.reverseRecOn with
  | nil =>
      rw [List.map_nil, List.append_nil, eraseDups_of_nodup d.nodup_keys]
      rfl
  | append_singleton pairs e ih =>
      rw [insertAll_concat_snd, keys_insert, ih, List.map_append, List.map_singleton,
        ← List.append_assoc, eraseDups_concat]
      simp only [List.mem_eraseDups]

/-! ## The latest value -/

/-- What stands under a name: the value inserted last, or else what stood there at the start. -/
inductive Latest (start : Dict α) (pairs : List (String × α)) (k : String) : Option α → Prop where
  | inserted {v : α} (last : IsLast pairs k v) : Latest start pairs k (some v)
  | kept (untouched : k ∉ pairs.map Prod.fst) : Latest start pairs k (start.get? k)

theorem Latest.unique {start : Dict α} {pairs : List (String × α)} {k : String} {o o' : Option α}
    (h : Latest start pairs k o) (h' : Latest start pairs k o') : o = o' := by
  cases h with
  | inserted last =>
      cases h' with
      | inserted last' => rw [last.unique last']
      | kept untouched => exact absurd last.mem_keys untouched
  | kept untouched =>
      cases h' with
      | inserted last => exact absurd last.mem_keys untouched
      | kept _ => rfl

/-- A further pair is the last one of its name and of no other. -/
theorem Latest.concat {start : Dict α} {pairs : List (String × α)} {k : String} {o : Option α}
    (h : Latest start pairs k o) (e : String × α) :
    Latest start (pairs ++ [e]) k (if k = e.1 then some e.2 else o) := by
  split
  · next hk => exact .inserted ⟨pairs, [], by rw [hk], List.not_mem_nil⟩
  · next hk =>
      cases h with
      | inserted last =>
          obtain ⟨before, after, rfl, hafter⟩ := last
          refine .inserted ⟨before, after ++ [e], by simp, ?_⟩
          simpa [hk] using hafter
      | kept untouched => exact .kept (by simpa [hk] using untouched)

theorem latest_get?_insertAll (start : Dict α) (pairs : List (String × α)) (k : String) :
    Latest start pairs k ((start.insertAll pairs).2.get? k) := by
  induction pairs using List.reverseRecOn with
  | nil => exact .kept List.not_mem_nil
  | append_singleton pairs e ih =>
      rw [insertAll_concat_snd, get?_insert]
      exact ih.concat e

theorem get?_insertAll_iff {start : Dict α} {pairs : List (String × α)} {k : String}
    {o : Option α} : (start.insertAll pairs).2.get? k = o ↔ Latest start pairs k o := by
  constructor
  · rintro rfl
    exact latest_get?_insertAll start pairs k
  · exact (latest_get?_insertAll start pairs k).unique

/-! ## Histories -/

/-- What there is to say of the dictionary `d` to which the insertion of pairs leads, and of what
the insertions give back. -/
structure History (start : Dict α) (pairs : List (String × α)) (replaced : List (Option α))
    (d : Dict α) : Prop where
  nodup : d.keys.Nodup
  get? : ∀ k o, d.get? k = o ↔ Latest start pairs k o
  contains : ∀ k, d.contains k = true ↔ ∃ v, d.get? k = some v
  size : d.size = (start.keys ++ pairs.map Prod.fst).toFinset.card
  length_replaced : replaced.length = pairs.length
  replaced : ∀ i (hi : i < pairs.length) o,
    replaced[i]? = some o ↔ Latest start (pairs.take i) pairs[i].1 o
  order : InFirstOrder (d.entries.map Prod.fst) (start.keys ++ pairs.map Prod.fst)
  values : ∀ e ∈ d.entries, Latest start pairs e.1 (some e.2)

@[simp] theorem length_keys (d : Dict α) : d.keys.length = d.size :=
  List.length_map _

/-- There are as many entries as distinct names. -/
theorem size_eq_card (d : Dict α) {names : List String} (h : ∀ k, k ∈ d.keys ↔ k ∈ names) :
    d.size = names.toFinset.card := by
  have hnames : names.toFinset = d.keys.toFinset := by
    ext k
    rw [List.mem_toFinset, List.mem_toFinset, h]
  rw [hnames, List.toFinset_card_of_nodup d.nodup_keys, length_keys]

theorem history_insertAll (start : Dict α) (pairs : List (String × α)) :
    History start pairs (start.insertAll pairs).1 (start.insertAll pairs).2 where
  nodup := nodup_keys _
  get? := fun _ _ => get?_insertAll_iff
  contains := fun k => by rw [contains_iff, mem_keys_iff]
  size := size_eq_card _ fun k => by rw [keys_insertAll, List.mem_eraseDups]
  length_replaced := length_insertAll_fst start pairs
  replaced := fun i hi o => by
    rw [getElem?_insertAll_fst start pairs i hi, Option.some_inj, get?_insertAll_iff]
  order := by
    have horder := inFirstOrder_eraseDups (start.keys ++ pairs.map Prod.fst)
    rwa [← keys_insertAll] at horder
  values := fun e he => get?_insertAll_iff.mp ((get?_eq_some_iff _ e.1 e.2).mpr he)

/-! ## Equality -/

theorem get?_eq_none_iff (d : Dict α) (k : String) : d.get? k = none ↔ k ∉ d.keys := by
  rw [mem_keys_iff, Option.eq_none_iff_forall_ne_some, not_exists]

/-- Dictionaries are the same if look-ups find the same in both. -/
theorem same_iff_forall_get? {eq : α → α → Bool} {d e : Dict α} :
    d.same eq e = true ↔ ∀ k, Option.Rel (fun x y => eq x y = true) (d.get? k) (e.get? k) := by
  rw [same, Bool.and_eq_true, beq_iff_eq, List.all_eq_true]
  constructor
  · rintro ⟨hsize, hall⟩ k
    have hfound : ∀ x ∈ d.entries, ∃ y, e.get? x.1 = some y ∧ eq x.2 y = true := by
      intro x hx
      have hfirst := hall x hx
      split at hfirst
      · next y hy => exact ⟨y, hy, hfirst⟩
      · cases hfirst
    have hsubset : d.keys ⊆ e.keys := by
      intro k hk
      obtain ⟨x, hx, rfl⟩ := List.mem_map.mp hk
      obtain ⟨y, hy, -⟩ := hfound x hx
      exact (mem_keys_iff e x.1).mpr ⟨y, hy⟩
    -- As many names that do not repeat are all names.
    have hperm : d.keys.Perm e.keys :=
      (d.nodup_keys.subperm hsubset).perm_of_length_le (by rw [length_keys, length_keys, hsize])
    cases hd : d.get? k with
    | some x =>
        obtain ⟨y, hy, hxy⟩ := hfound (k, x) ((get?_eq_some_iff d k x).mp hd)
        rw [hy]
        exact .some hxy
    | none =>
        rw [get?_eq_none_iff, hperm.mem_iff, ← get?_eq_none_iff] at hd
        rw [hd]
        exact .none
  · intro h
    have hkeys : ∀ k, k ∈ d.keys ↔ k ∈ e.keys := by
      intro k
      have hrel := h k
      rw [mem_keys_iff, mem_keys_iff]
      generalize d.get? k = x, e.get? k = y at hrel
      cases hrel <;> simp
    have hperm : d.keys.Perm e.keys :=
      (List.perm_ext_iff_of_nodup d.nodup_keys e.nodup_keys).mpr hkeys
    refine ⟨by rw [← length_keys, ← length_keys, hperm.length_eq], ?_⟩
    intro x hx
    have hrel := h x.1
    rw [(get?_eq_some_iff d x.1 x.2).mpr hx] at hrel
    split
    · next y hy =>
        rw [hy] at hrel
        cases hrel with
        | some hxy => exact hxy
    · next hnone =>
        rw [hnone] at hrel
        cases hrel

end Dict

end MutationInput
