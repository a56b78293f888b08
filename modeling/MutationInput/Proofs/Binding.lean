import MutationInput.Variables
import MutationInput.Proofs.Dict
import MutationInput.Proofs.Json.Members
import MutationInput.Proofs.Json.Printed

/-!
# Bindings as JSON values

A binding comes back equal from the JSON value that it is written as, though the members of its
mappings come back sorted: `same_ofJson_canonical`. The names of variables come back in their order
too, `parse_compact_toJson`.
-/
namespace MutationInput

namespace Binding

/-- Every mapping in a binding has each of its names once, as a mapping does. -/
inductive WellFormed : Binding → Prop where
  | scalar (s : Scalar) : WellFormed (.scalar s)
  | list {items : List Binding} (items_ok : ∀ b ∈ items, WellFormed b) : WellFormed (.list items)
  | mapping {entries : List (String × Binding)} (distinct : (entries.map Prod.fst).Nodup)
      (entries_ok : ∀ e ∈ entries, WellFormed e.2) : WellFormed (.mapping entries)

theorem ofItems_eq_map (items : List Json) : ofItems items = items.map ofJson := by
  induction items with
  | nil => rfl
  | cons j items ih => rw [ofItems, ih, List.map_cons]

theorem ofMembers_eq_map (members : List (String × Json)) :
    ofMembers members = members.map fun e => (e.1, ofJson e.2) := by
  induction members with
  | nil => rfl
  | cons e members ih => rw [ofMembers, ih, List.map_cons]

theorem toItems_eq_map (items : List Binding) : toItems items = items.map toJson := by
  induction items with
  | nil => rfl
  | cons b items ih => rw [toItems, ih, List.map_cons]

theorem toMembers_eq_map (entries : List (String × Binding)) :
    toMembers entries = entries.map fun e => (e.1, toJson e.2) := by
  induction entries with
  | nil => rfl
  | cons e entries ih => rw [toMembers, ih, List.map_cons]

/-- A value without repeated names stands for a well-formed binding. -/
theorem wellFormed_ofJson_canonical : ∀ j : Json, (ofJson j.canonical).WellFormed
  | .null | .bool _ | .number _ | .string _ => .scalar _
  | .array items => by
      rw [Json.canonical, ofJson, ofItems_eq_map, Json.canonicalItems_eq_map, List.map_map]
      refine .list fun b hb => ?_
      obtain ⟨j, hj, rfl⟩ := List.mem_map.mp hb
      have := List.sizeOf_lt_of_mem hj
      exact wellFormed_ofJson_canonical j
  | .object members => by
      have hnodup := Json.nodup_map_sortMembers ofJson (Json.canonicalMembers members)
      rw [Json.canonical, Json.ofMembers, ofJson, ofMembers_eq_map]
      refine .mapping hnodup fun e he => ?_
      obtain ⟨e', he', rfl⟩ := List.mem_map.mp he
      have hmem := Json.mem_of_mem_sortMembers he'
      rw [Json.canonicalMembers_eq_map] at hmem
      obtain ⟨e'', he'', rfl⟩ := List.mem_map.mp hmem
      have := List.sizeOf_lt_of_mem he''
      exact wellFormed_ofJson_canonical e''.2
termination_by j => sizeOf j
decreasing_by
  · simp only [Json.array.sizeOf_spec]
    omega
  · have hvalue : sizeOf e''.2 < sizeOf e'' := by
      cases e''
      simp
    simp only [Json.object.sizeOf_spec]
    omega

theorem decoder_read (d : Nat) :
    decoder.read d = Json.imageReader (fun j => ofJson j.canonical)
      (Json.readTree d) := by
  funext s
  change (Json.readValue d s).map _ = _
  rw [Json.readValue_eq, Json.imageReader, Json.imageReader]
  cases Json.readTree d s <;> rfl

/-- A list is equal to the list of bindings that are equal to its items. -/
theorem sameItems_map {items : List Binding} {f : Binding → Binding}
    (h : ∀ b ∈ items, b.same (f b) = true) : sameItems items (items.map f) = true := by
  induction items with
  | nil => rfl
  | cons b items ih =>
      have hrest := ih fun b' hb' => h b' (List.mem_cons_of_mem _ hb')
      rw [List.map_cons, sameItems, h b List.mem_cons_self, hrest]
      rfl

/-- Every entry has an equal one of its name, where no name is repeated. -/
theorem sameEntries_of_mem {as bs : List (String × Binding)} (hbs : (bs.map Prod.fst).Nodup)
    (h : ∀ e ∈ as, ∃ b, (e.1, b) ∈ bs ∧ e.2.same b = true) : sameEntries as bs = true := by
  induction as with
  | nil => rfl
  | cons e as ih =>
      obtain ⟨b, hmem, hsame⟩ := h e List.mem_cons_self
      have hlookup : bs.lookup e.1 = some b := (Dict.get?_eq_some_iff ⟨bs, hbs⟩ e.1 b).mpr hmem
      have hrest := ih fun e' he' => h e' (List.mem_cons_of_mem _ he')
      rw [sameEntries, hlookup, hrest]
      simpa using hsame

/-- Sorted members stand for the same entries, in another order. -/
theorem perm_ofMembers_sortMembers {entries : List (String × Binding)}
    (h : (entries.map Prod.fst).Nodup) (f : String × Binding → Json) :
    (ofMembers (Json.sortMembers (entries.map fun e => (e.1, f e)))).Perm
      (entries.map fun e => (e.1, ofJson (f e))) := by
  have hperm : (Json.sortMembers (entries.map fun e => (e.1, f e))).Perm
      (entries.map fun e => (e.1, f e)) :=
    Json.perm_sortMembers (by simpa [Function.comp_def] using h)
  rw [ofMembers_eq_map]
  simpa [Function.comp_def] using hperm.map fun e => (e.1, ofJson e.2)

/-- A binding is equal to what comes back from its JSON value, whose objects are sorted. -/
theorem same_ofJson_canonical {b : Binding} (h : b.WellFormed) (hn : b.toJson.HasWholeNumbers) :
    b.same (ofJson b.toJson.canonical) = true := by
  induction h with
  | scalar s =>
      cases s with
      | null => rfl
      | boolean b => simp [toJson, Json.canonical, ofJson, same, Scalar.same]
      | number n =>
          cases hn with
          | number whole =>
              cases n with
              | float x => exact whole.elim
              | integer n => simp [toJson, Json.canonical, ofJson, same, Scalar.same, Number.same]
      | string s => simp [toJson, Json.canonical, ofJson, same, Scalar.same]
  | @list items _ ih =>
      cases hn with
      | array whole =>
          rw [toItems_eq_map] at whole
          have hitems : ∀ b ∈ items, b.same (ofJson b.toJson.canonical) = true :=
            fun b hb => ih b hb (whole _ (List.mem_map_of_mem hb))
          rw [toJson, Json.canonical, ofJson, same, toItems_eq_map, Json.canonicalItems_eq_map,
            ofItems_eq_map, List.map_map, List.map_map]
          exact sameItems_map hitems
  | @mapping entries distinct _ ih =>
      cases hn with
      | object whole =>
          rw [toMembers_eq_map] at whole
          have hback : Json.canonicalMembers (toMembers entries) =
              entries.map fun e => (e.1, e.2.toJson.canonical) := by
            simp [Json.canonicalMembers_eq_map, toMembers_eq_map]
          -- The members come back in another order, so each is looked up by its name.
          have hperm := perm_ofMembers_sortMembers distinct fun e => e.2.toJson.canonical
          have hsame : sameEntries entries (ofMembers (Json.sortMembers
              (entries.map fun e => (e.1, e.2.toJson.canonical)))) = true := by
            refine sameEntries_of_mem ((hperm.map Prod.fst).nodup_iff.mpr ?_) fun e he => ?_
            · simpa [Function.comp_def] using distinct
            · refine ⟨ofJson e.2.toJson.canonical, hperm.mem_iff.mpr (List.mem_map_of_mem he), ?_⟩
              exact ih e he (whole (e.1, e.2.toJson) (List.mem_map_of_mem he))
          rw [toJson, Json.canonical, Json.ofMembers, ofJson, same, hback, hsame, hperm.length_eq]
          simp

end Binding

namespace Variables

/-- Every mapping in the bindings has each of its names once. -/
def WellFormed (v : Variables) : Prop :=
  ∀ e ∈ v.entries, e.2.WellFormed

/-- The text of variables is decoded as the same names in the same order, each bound to what its
binding comes back as. -/
theorem parse_compact_toJson {v : Variables} (hn : v.toJson.HasWholeNumbers)
    (hd : v.toJson.depth ≤ Json.maxDepth) :
    parse v.toJson.compact = .ok (v.mapValues fun b => Binding.ofJson b.toJson.canonical) := by
  cases hn with
  | object whole =>
      have hread : ∀ e ∈ Binding.toMembers v.entries,
          Json.Reads (Binding.decoder.read 126) (e.2.print none)
            (Binding.ofJson e.2.canonical) := by
        intro e he
        have hdepth := Json.depth_le_depthMembers he
        exact (Json.reads_print (whole e he) none
          (Nat.le_trans hdepth (Nat.le_of_succ_le_succ hd))).map Binding.ofJson
      have hentries : Json.Reads (Binding.decoder.entries.read Json.maxDepth) (v.toJson.print none)
          ((Binding.toMembers v.entries).map fun e => (e.1, Binding.ofJson e.2.canonical)) :=
        Json.Decoder.reads_entries (d := 126) (f := fun j => Binding.ofJson j.canonical) none hread
      have hback : Dict.ofList ((Binding.toMembers v.entries).map fun e =>
          (e.1, Binding.ofJson e.2.canonical)) =
          v.mapValues fun b => Binding.ofJson b.toJson.canonical := by
        apply Dict.eq_of_entries_eq
        rw [Dict.entries_ofList, Binding.toMembers_eq_map, List.map_map]
        · rfl
        · simpa [Binding.toMembers_eq_map, Function.comp_def] using v.nodup
      rw [parse, ← hback]
      exact Json.readAll_compact (hentries.map Dict.ofList)

/-- The variables that the text of well-formed variables is decoded as are equal to them. -/
theorem same_mapValues_ofJson {v : Variables} (h : v.WellFormed) (hn : v.toJson.HasWholeNumbers) :
    v.same (v.mapValues fun b => Binding.ofJson b.toJson.canonical) = true := by
  cases hn with
  | object whole =>
      rw [Binding.toMembers_eq_map] at whole
      exact Dict.same_mapValues fun e he => Binding.same_ofJson_canonical (h e he)
        (whole (e.1, e.2.toJson) (List.mem_map_of_mem he))

end Variables

end MutationInput
