/-!
# Dictionaries in insertion order

A dictionary is a list of named entries in which no name occurs twice. Inserting under a new name
appends; inserting under a name that is present keeps its position and replaces its value. So the
names stand in the order of their first insertion and each holds the value inserted last, which is
what `ofList` makes of a list of pairs with repeated names.
-/
namespace MutationInput

/-- Named entries in insertion order, each name once. -/
structure Dict (α : Type) where
  entries : List (String × α)
  nodup : (entries.map Prod.fst).Nodup
  deriving DecidableEq, Repr

namespace Dict

variable {α β : Type}

/-- Entries with the value `v` under the name `k`: in place if `k` is there, else at the end. -/
def put (k : String) (v : α) : List (String × α) → List (String × α)
  | [] => [(k, v)]
  | e :: rest => if e.1 = k then (k, v) :: rest else e :: put k v rest

/-- Putting changes the names only by appending a new one. -/
theorem keys_put (k : String) (v : α) (es : List (String × α)) :
    (put k v es).map Prod.fst =
      if k ∈ es.map Prod.fst then es.map Prod.fst else es.map Prod.fst ++ [k] := by
  induction es with
  | nil => rfl
  | cons e rest ih =>
    by_cases h : e.1 = k
    · simp [put, h]
    · have h' : ¬k = e.1 := fun hk => h hk.symm
      by_cases hm : k ∈ rest.map Prod.fst <;> simp_all [put]

theorem nodup_put {k : String} {v : α} {es : List (String × α)}
    (h : (es.map Prod.fst).Nodup) : ((put k v es).map Prod.fst).Nodup := by
  rw [keys_put]
  split
  · exact h
  · next hk =>
    rw [List.nodup_append]
    exact ⟨h, by simp, fun a ha b hb hab => hk (by simp_all)⟩

/-- A look-up finds the first entry or goes on behind it. -/
theorem lookup_entry (k : String) (e : String × α) (es : List (String × α)) :
    (e :: es).lookup k = if k = e.1 then some e.2 else es.lookup k := by
  obtain ⟨k', v⟩ := e
  by_cases h : k = k'
  · subst h
    exact (List.lookup_cons_self).trans (if_pos rfl).symm
  · rw [if_neg h, List.lookup_cons, beq_false_of_ne h]

/-- Putting changes the value under its own name and under no other. -/
theorem lookup_put (k k' : String) (v : α) (es : List (String × α)) :
    (put k v es).lookup k' = if k' = k then some v else es.lookup k' := by
  induction es with
  | nil => simp [put, lookup_entry]
  | cons e rest ih =>
    by_cases h : e.1 = k
    · by_cases hk : k' = k <;> simp [put, h, lookup_entry, hk]
    · by_cases hk : k' = e.1 <;> simp [put, h, lookup_entry, hk, ih]

/-- Entries with the value `v` under the name `k`, and the value that it takes the place of. -/
def swap (k : String) (v : α) : List (String × α) → Option α × List (String × α)
  | [] => (none, [(k, v)])
  | e :: rest =>
    if e.1 = k then (some e.2, (k, v) :: rest)
    else
      let swapped := swap k v rest
      (swapped.1, e :: swapped.2)

/-- What is swapped out is what a look-up finds, and what is left is what putting leaves. -/
theorem swap_eq (k : String) (v : α) (es : List (String × α)) :
    swap k v es = (es.lookup k, put k v es) := by
  induction es with
  | nil => rfl
  | cons e rest ih =>
    by_cases h : e.1 = k
    · simp [swap, put, h, lookup_entry]
    · simp [swap, put, h, lookup_entry, Ne.symm h, ih]

/-- The dictionary without entries. -/
def empty : Dict α := ⟨[], by simp⟩

instance : Inhabited (Dict α) := ⟨empty⟩

instance : EmptyCollection (Dict α) := ⟨empty⟩

/-- The dictionary with `v` under `k`. -/
def insert (d : Dict α) (k : String) (v : α) : Dict α :=
  ⟨put k v d.entries, nodup_put d.nodup⟩

/-- The dictionary with `v` under `k`, and the value that it takes the place of. -/
def exchange (d : Dict α) (k : String) (v : α) : Option α × Dict α :=
  ((swap k v d.entries).1, ⟨(swap k v d.entries).2, by rw [swap_eq]; exact nodup_put d.nodup⟩)

/-- The dictionary without the name `k`. -/
def erase (d : Dict α) (k : String) : Dict α :=
  ⟨d.entries.filter fun e => e.1 != k, d.nodup.sublist (List.filter_sublist.map Prod.fst)⟩

/-- The dictionary built by inserting pairs from left to right. -/
def ofList (pairs : List (String × α)) : Dict α :=
  pairs.foldl (fun d e => d.insert e.1 e.2) empty

/-- The names, in order of first insertion. -/
def keys (d : Dict α) : List String :=
  d.entries.map Prod.fst

/-- The value under a name. -/
def get? (d : Dict α) (k : String) : Option α :=
  d.entries.lookup k

/-- No name occurs twice. -/
theorem nodup_keys (d : Dict α) : d.keys.Nodup :=
  d.nodup

/-- Inserting appends a new name and leaves the names as they are otherwise. -/
theorem keys_insert (d : Dict α) (k : String) (v : α) :
    (d.insert k v).keys = if k ∈ d.keys then d.keys else d.keys ++ [k] :=
  keys_put k v d.entries

/-- Inserting changes the value under its own name and under no other. -/
theorem get?_insert (d : Dict α) (k k' : String) (v : α) :
    (d.insert k v).get? k' = if k' = k then some v else d.get? k' :=
  lookup_put k k' v d.entries

/-- An exchange inserts and gives back what a look-up found. -/
theorem exchange_eq (d : Dict α) (k : String) (v : α) :
    d.exchange k v = (d.get? k, d.insert k v) := by
  simp only [exchange, swap_eq, get?, insert]

/-- Whether a name has a value. -/
def contains (d : Dict α) (k : String) : Bool :=
  d.keys.contains k

/-- The dictionary with `v` under `k`, unless it has another value there. -/
def insertNew (d : Dict α) (k : String) (v : α) : Dict α :=
  if d.contains k then d else d.insert k v

/-- The number of entries. -/
def size (d : Dict α) : Nat :=
  d.entries.length

/-- Whether there are no entries. -/
def isEmpty (d : Dict α) : Bool :=
  d.entries.isEmpty

/-- The dictionary with every value replaced by its image. -/
def mapValues (f : α → β) (d : Dict α) : Dict β :=
  ⟨d.entries.map fun e => (e.1, f e.2), by simpa [List.map_map, Function.comp_def] using d.nodup⟩

/-- Whether two dictionaries have the same names and related values, in whatever order. -/
def same (eq : α → α → Bool) (d e : Dict α) : Bool :=
  d.size == e.size && d.entries.all fun x =>
    match e.get? x.1 with
    | some y => eq x.2 y
    | none => false

end Dict

end MutationInput
