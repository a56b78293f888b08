import MutationInput.Client
import MutationInput.Proofs.Binding

/-!
# The body of a request

The body that is sent for a query holds the query and the variables and nothing else, and both come
back from it: `requestBody_carries`. Variables that bind nothing leave no trace in it, so executing
a query with them is executing it without variables.
-/
namespace MutationInput

/-- A text denotes `j` and is decoded as variables equal to `v`, whose names have the same order. -/
structure Variables.ComesBack (v : Variables) (text : String) (j : Json) : Prop where
  parsed : Json.parse (Text.ofString text) = .ok j
  decoded : ∃ w, Variables.parse text = .ok w ∧ v.same w = true ∧ w.keys = v.keys

/-- A body denotes an object with these members, which are the query and, if there are any, the
bindings. -/
structure Carries (body query : String) (bindings : Option Variables)
    (members : List (String × Json)) : Prop where
  /-- The body is an object with these members. -/
  parsed : Json.parse (Text.ofString body) = .ok (.object members)
  /-- They are written in this order. -/
  written : Json.Decoder.value.entries.parse (Text.ofString body) = .ok members
  /-- The query comes first. -/
  first : members.head? = some ("query", .string query)
  /-- No name is repeated. -/
  nodup : (members.map Prod.fst).Nodup
  /-- There are no other members than the query and the variables. -/
  names : ∀ k ∈ members.map Prod.fst, k = "query" ∨ k = "variables"
  /-- The variables are there if they are given and bind something. -/
  variables_mem_iff :
    "variables" ∈ members.map Prod.fst ↔ ∃ v ∈ bindings, v.isEmpty = false
  /-- What is written for the variables comes back as they were. -/
  variables_text : ∀ v ∈ bindings, v.isEmpty = false → ∃ text j,
    body = "\x7b\"query\":" ++ (Json.string query).compact ++ ",\"variables\":" ++ text ++ "\x7d" ∧
      ("variables", j) ∈ members ∧ v.ComesBack text j

theorem requestJson_of_isEmpty (query : String) {v : Variables} (h : v.isEmpty = true) :
    requestJson query (some v) = requestJson query none := by
  simp [requestJson, h]

theorem requestJson_of_bindings (query : String) {v : Variables} (h : v.isEmpty = false) :
    requestJson query (some v) =
      .object [("query", .string query), ("variables", v.toJson)] := by
  simp [requestJson, h]

/-- A body without variables carries the query. -/
theorem carries_query (query : String) {bindings : Option Variables}
    (h : ∀ v ∈ bindings, v.isEmpty = true) :
    Carries (requestBody query none) query bindings [("query", .string query)] := by
  have hn : (requestJson query none).HasWholeNumbers :=
    .object fun e he => List.mem_singleton.mp he ▸ .string query
  have hd : (requestJson query none).depth ≤ Json.maxDepth := by
    simp [requestJson, Json.depth, Json.depthMembers, Json.maxDepth]
  refine ⟨Json.parse_compact hn hd, Json.parse_entries_compact hn hd, rfl, by simp, by simp, ?_, ?_⟩
  · simpa using h
  · intro v hv hne
    rw [h v hv] at hne
    cases hne

theorem requestBody_of_bindings (query : String) {v : Variables} (h : v.isEmpty = false) :
    requestBody query (some v) =
      "\x7b\"query\":" ++ (Json.string query).compact ++ ",\"variables\":" ++ v.toJson.compact ++
        "\x7d" := by
  apply String.toList_injective
  simp [requestBody, requestJson_of_bindings query h, Json.compact, Json.print, Json.printMembers,
    Json.lineBreak, Json.gap, Json.printString, Json.escapeChar]

/-- A body with variables carries the query and them. -/
theorem carries_bindings (query : String) {v : Variables} (h : v.isEmpty = false)
    (hw : v.WellFormed) (hv : v.toJson.HasWholeNumbers)
    (hd : (requestJson query (some v)).depth ≤ Json.maxDepth) :
    Carries (requestBody query (some v)) query (some v)
      [("query", .string query), ("variables", v.toJson.canonical)] := by
  have hmembers := requestJson_of_bindings query h
  have hn : (Json.object [("query", .string query), ("variables", v.toJson)]).HasWholeNumbers := by
    refine .object fun e he => ?_
    rcases List.mem_pair.mp he with rfl | rfl
    · exact .string query
    · exact hv
  have hinner : v.toJson.depth ≤ Json.maxDepth := by
    rw [hmembers] at hd
    exact Nat.le_trans (Json.depth_le_depthMembers (e := ("variables", v.toJson)) (by simp))
      (Nat.le_of_succ_le hd)
  have hsorted : (requestJson query (some v)).canonical =
      .object [("query", .string query), ("variables", v.toJson.canonical)] := by
    rw [hmembers, Json.canonical, Json.canonicalMembers_eq_map]
    have hlt : ¬"variables" < "query" := by decide
    simp [Json.ofMembers, Json.sortMembers, Json.setMember, Json.canonical, hlt]
  constructor
  · rw [← hsorted]
    exact Json.parse_compact (hmembers ▸ hn) hd
  · rw [requestBody, hmembers]
    exact Json.parse_entries_compact hn (hmembers ▸ hd)
  · rfl
  · simp
  · simp
  · simpa using h
  · rintro v' hv' -
    cases hv'
    refine ⟨v.toJson.compact, v.toJson.canonical, requestBody_of_bindings query h, by simp, ?_⟩
    exact ⟨Json.parse_compact hv hinner, _, Variables.parse_compact_toJson hv hinner,
      Variables.same_mapValues_ofJson hw hv, Dict.keys_mapValues _ v⟩

/-- The body that is sent for a query carries the query and the variables, if the numbers they bind
are integers of 64 bits and the body does not nest deeper than may be read. Variables that bind
nothing are sent as none. -/
theorem requestBody_carries (query : String) (bindings : Option Variables)
    (hbindings : ∀ v ∈ bindings, v.WellFormed ∧ v.toJson.HasWholeNumbers)
    (hdepth : (requestJson query bindings).depth ≤ Json.maxDepth) :
    (∃ members, Carries (requestBody query bindings) query bindings members) ∧
      ∀ v : Variables, v.isEmpty = true → requestBody query (some v) = requestBody query none ∧
        ∀ (α : Type) (c : Client) (lib : Library) (decode : Json → Except Json.Mismatch α),
          c.execute lib decode query (some v) = c.execute lib decode query none := by
  have hnone : ∀ v : Variables, v.isEmpty = true →
      requestBody query (some v) = requestBody query none := fun v hv => by
    rw [requestBody, requestJson_of_isEmpty query hv, requestBody]
  refine ⟨?_, fun v hv => ⟨hnone v hv, fun α c lib decode => ?_⟩⟩
  · cases bindings with
    | none => exact ⟨_, carries_query query (by simp)⟩
    | some v =>
        obtain ⟨hw, hv⟩ := hbindings v rfl
        cases hempty : v.isEmpty with
        | true =>
            rw [hnone v hempty]
            exact ⟨_, carries_query query (by simpa using hempty)⟩
        | false => exact ⟨_, carries_bindings query hempty hw hv hdepth⟩
  · rw [Client.execute, Client.execute, hnone v hv]

/-- Variables at both ends of the integers, with names out of order at both levels. -/
def Variables.extremes : Variables where
  entries :=
    [("low", .list
        [.scalar (.number (.integer (-9223372036854775808))),
          .mapping [("b", .scalar .null), ("a", .scalar (.string "\\"))]]),
      ("high", .scalar (.number (.integer 18446744073709551615)))]
  nodup := by decide

/-- A query with quotes, a backslash, a control character and a character of four bytes. -/
theorem requestBody_carries_extremes :
    ∃ members, Carries (requestBody "save(name: \"\\\x01😀\")" (some .extremes))
      "save(name: \"\\\x01😀\")" (some .extremes) members := by
  refine (requestBody_carries _ (some .extremes) ?_ ?_).1
  · intro v hv
    cases hv
    refine ⟨?_, .object ?_⟩
    · simp only [Variables.WellFormed, Variables.extremes, List.forall_mem_cons]
      refine ⟨.list ?_, .scalar _, by simp⟩
      simp only [List.forall_mem_cons]
      refine ⟨.scalar _, .mapping (by decide) ?_, by simp⟩
      simp only [List.forall_mem_cons]
      exact ⟨.scalar _, .scalar _, by simp⟩
    · simp only [Variables.extremes, Binding.toMembers, Binding.toJson, Binding.toItems,
        List.forall_mem_cons]
      refine ⟨.array ?_, .number (by decide), by simp⟩
      simp only [List.forall_mem_cons]
      refine ⟨.number (by decide), .object ?_, by simp⟩
      simp only [List.forall_mem_cons]
      exact ⟨.null, .string _, by simp⟩
  · decide

end MutationInput
