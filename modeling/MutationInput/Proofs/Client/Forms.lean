import MutationInput.Proofs.Client.Data
import MutationInput.Proofs.Json.Alike
import MutationInput.Proofs.Json.Sound

/-!
# What is taken for a body

A body is an object with the data and the errors as members, and an array that lists the two in
this order is taken for one as well: `ResponseBody.HasForm` has these two forms. No other value is,
so an execution fails if it receives one, whatever the status and the wanted type are,
`execute_takes_forms`.
-/
namespace MutationInput

open Json (Decoder)

/-! ## Decoding a body from any text -/

theorem ErrorLocation.sound_decoder : record.decoder.Sound := by
  refine regular_record.sound_decoder ?_
  simp only [record, List.forall_mem_cons]
  exact ⟨Decoder.sound_unsigned.map _, Decoder.sound_unsigned.map _, by simp⟩

theorem PathSegment.sound_decoder : PathSegment.decoder.Sound := by
  intro d s j rest h
  simp only [PathSegment.decoder, Json.readValue_of_readTree h, bind, Except.bind]
  cases PathSegment.ofJson j.canonical with
  | ok x => exact .ok x
  | error e => exact .error _ _

theorem ResponseError.sound_decoder : ResponseError.decoder.Sound := by
  refine regular_record.sound_decoder ?_
  simp only [record, List.forall_mem_cons]
  refine ⟨?_, ?_, ?_, ?_, by simp⟩
  · exact Decoder.sound_string.map _
  · exact ErrorLocation.sound_decoder.list.optional.map _
  · exact PathSegment.sound_decoder.list.optional.map _
  · exact Decoder.sound_sortedEntries.optional.map _

theorem ResponseBody.sound_decoder : ResponseBody.decoder.Sound := by
  refine regular_record.sound_decoder ?_
  simp only [record, List.forall_mem_cons]
  refine ⟨?_, ?_, by simp⟩
  · exact Decoder.sound_value.optional.map _
  · exact ResponseError.sound_decoder.list.optional.map _

/-! ## The forms of a body -/

namespace ResponseBody

/-- The items of an array list the data and the errors of a body. What is missing at the end is
absent, and so is null. -/
structure IsListedBy (body : ResponseBody) (items : List Json) : Prop where
  short : items.length ≤ 2
  data : body.data = unlessNull? items[0]?
  no_errors : unlessNull? items[1]? = none → body.errors = none
  errors : ∀ j, unlessNull? items[1]? = some j →
    ∃ es, ResponseError.decoder.list.ofJson j = .ok es ∧ body.errors = some es

/-- A value that is taken for the body. -/
inductive HasForm (body : ResponseBody) : Json → Prop where
  | object {members : List (String × Json)} (given : body.IsGivenBy members) :
      HasForm body (.object members)
  | array {items : List Json} (listed : body.IsListedBy items) : HasForm body (.array items)

/-- Storing items sets the data and the errors. -/
theorem storeItems_eq_ok_iff {items : List Json} {body : ResponseBody} :
    record.storeItems 0 record.members items record.blank = .ok body ↔
      items.length ≤ 2 ∧ Sets Decoder.value.optional items[0]? none body.data ∧
        Sets ResponseError.decoder.list.optional items[1]? none body.errors := by
  obtain ⟨data, errors⟩ := body
  match items with
  | [] => simp [record, Json.Record.storeItems, Json.Member.storing, Sets, eq_comm]
  | [j] =>
      simp only [record, Json.Record.storeItems, Json.Member.storing, Decoder.map, bind_eq_ok_iff,
        map_eq_ok_iff]
      simp [Sets, eq_comm]
  | [j, j'] =>
      simp only [record, Json.Record.storeItems, Json.Member.storing, Decoder.map, bind_eq_ok_iff,
        map_eq_ok_iff]
      simp [Sets]
  | j :: j' :: j'' :: items =>
      simp only [record, Json.Record.storeItems, Json.Member.storing, Decoder.map, bind_eq_ok_iff,
        map_eq_ok_iff]
      simp

theorem ofJson_array_eq_ok_iff {items : List Json} {body : ResponseBody} :
    decoder.ofJson (.array items) = .ok body ↔ body.IsListedBy items := by
  change record.storeItems 0 record.members items record.blank = .ok body ↔ _
  rw [storeItems_eq_ok_iff, sets_data_iff, sets_unlessNull_iff]
  constructor
  · rintro ⟨hshort, hdata, hno, herrors⟩
    exact ⟨hshort, hdata, hno, herrors⟩
  · rintro ⟨hshort, hdata, hno, herrors⟩
    exact ⟨hshort, hdata, hno, herrors⟩

/-- The values that are decoded as a body are those of its forms. -/
theorem ofJson_eq_ok_iff_hasForm {j : Json} (hj : j.IsCanonical) {body : ResponseBody} :
    decoder.ofJson j = .ok body ↔ body.HasForm j := by
  cases j with
  | object members =>
      rw [Json.IsCanonical] at hj
      rw [ofJson_eq_ok_iff hj.1.nodup]
      refine ⟨.object, fun h => ?_⟩
      cases h with
      | object given => exact given
  | array items =>
      rw [ofJson_array_eq_ok_iff]
      refine ⟨.array, fun h => ?_⟩
      cases h with
      | array listed => exact listed
  | _ =>
      constructor
      · intro h
        cases h
      · rintro ⟨⟩

end ResponseBody

/-! ## What an execution takes -/

theorem Json.isCanonical_of_parse {s : Json.Source} {j : Json} (h : Json.parse s = .ok j) :
    j.IsCanonical := by
  obtain ⟨rest, hread, -⟩ := Json.readAll_eq_ok_iff.mp h
  rw [Json.readValue_eq] at hread
  obtain ⟨⟨tree, rest'⟩, -, heq⟩ := map_eq_ok_iff.mp hread
  cases heq
  exact Json.isCanonical_canonical tree

namespace Response

variable {r : Response} {j : Json} {body : ResponseBody}

/-- What a response holds has one of the two forms. -/
theorem hasForm_of_holds (hj : Json.parse (Text.pieces r.body) = .ok j) (h : r.Holds body) :
    body.HasForm j :=
  (ResponseBody.ofJson_eq_ok_iff_hasForm (Json.isCanonical_of_parse hj)).mp
    (ResponseBody.sound_decoder.ofJson_eq_ok hj h.decoded)

/-- A value of one of the two forms is held, if no object in the bytes repeats a name. -/
theorem holds_of_hasForm (hcomplete : r.cutOff? = none)
    (hj : Json.Denotes (Text.pieces r.body) j) (h : body.HasForm j) : r.Holds body := by
  have hcanonical := Json.isCanonical_of_parse hj.parse_eq
  have hjson := (ResponseBody.ofJson_eq_ok_iff_hasForm hcanonical).mpr h
  exact ⟨hcomplete, (ResponseBody.faithful_decoder.parse_eq_ok_iff hj body).mpr hjson⟩

end Response

theorem Client.Sends.result_send_of_response {α : Type} {c : Client} {lib : Library}
    {network : Request → Reply} {decode : Json → Except Json.Mismatch α} {body : String}
    {request : Request} {r : Response} (h : c.Sends lib body request)
    (hreply : network request = .response r) :
    ((c.send lib decode body).result network).result = (receive decode r).result := by
  rw [h.result_send_eq_iff, hreply]
  exact yields_receive c.endpoint r

/-- A response whose bytes are JSON but have neither form of a body makes an execution fail, with
any status and for any wanted type: no scalar, no array of more than two items and none whose second
item is neither null nor a list of errors is taken for a body. A value of one of the forms is taken
for what it gives or lists. -/
theorem execute_takes_forms {α : Type} (c : Client) (lib : Library) (network : Request → Reply)
    (decode : Json → Except Json.Mismatch α) (query : String) (bindings : Option Variables)
    {request : Request} {r : Response} {j : Json}
    (hsends : c.Sends lib (requestBody query bindings) request)
    (hreply : network request = .response r) (hcomplete : r.cutOff? = none)
    (hj : Json.parse (Text.pieces r.body) = .ok j) :
    ((∀ body : ResponseBody, ¬body.HasForm j) →
      ∃ fault, ((c.execute lib decode query bindings).result network).result =
        .error (.transport (.decodeBody r.status fault r.body))) ∧
    (Json.Denotes (Text.pieces r.body) j → ∀ body : ResponseBody, body.HasForm j →
      ((c.execute lib decode query bindings).result network).result =
        Client.outcome r.status decode body) := by
  have hresult : ((c.execute lib decode query bindings).result network).result =
      (Client.receive decode r).result :=
    hsends.result_send_of_response hreply
  rw [hresult]
  constructor
  · intro hnone
    cases hparse : ResponseBody.decoder.parse (Text.pieces r.body) with
    | ok body => exact absurd (Response.hasForm_of_holds hj ⟨hcomplete, hparse⟩) (hnone body)
    | error fault =>
        have hyields : Reply.Yields c.endpoint decode (.response r)
            (.error (.transport (.decodeBody r.status fault r.body))) :=
          .undecodable hcomplete hparse
        exact ⟨fault, Client.result_receive_of_yields hyields⟩
  · intro hdenotes body hbody
    exact Client.result_receive_of_holds (Response.holds_of_hasForm hcomplete hdenotes hbody)

/-- A failing gateway that answers with an array of null and a list of errors. -/
def Response.listedError : Response where
  status := 502
  body := Text.encode "[null,[\x7b\"message\":\"late\"\x7d]]"
  cutOff? := none

theorem Response.denotes_listedError :
    Json.Denotes (Text.pieces Response.listedError.body)
      (.array [.null, .array [.object [("message", .string "late")]]]) := by
  have htext : Response.listedError.body = Text.encode
      (Json.array [.null, .array [.object [("message", .string "late")]]]).compact := by
    decide +kernel
  have hdistinct :
      (Json.array [.null, .array [.object [("message", .string "late")]]]).Distinct := by
    refine .array ?_
    simp only [List.forall_mem_cons]
    refine ⟨.scalar trivial, .array ?_, by simp⟩
    simp only [List.forall_mem_cons]
    exact ⟨.object (by decide) (by simpa using .scalar trivial), by simp⟩
  rw [htext, Text.pieces_encode]
  exact Json.denotes_compact (by simp) (by decide) hdistinct

theorem execute_takes_listedError :
    (((Client.ofEndpoint "https://localhost/graphql").execute .basic Json.Decoder.boolean.ofJson
      "\x7bb\x7d" none).result fun _ => .response .listedError).result =
        .error (.listed [.ofMessage "late"]) := by
  obtain ⟨request, hsends⟩ := Client.canSend_secure.exists_sends (requestBody "\x7bb\x7d" none)
  have hform : ResponseBody.HasForm ⟨none, some [.ofMessage "late"]⟩
      (.array [.null, .array [.object [("message", .string "late")]]]) := by
    refine .array ⟨by decide, rfl, ?_, fun j hj => ?_⟩
    · intro h
      cases h
    · cases hj
      exact ⟨_, rfl, rfl⟩
  exact (execute_takes_forms _ .basic (fun _ => .response .listedError)
    Json.Decoder.boolean.ofJson _ _ hsends rfl rfl Response.denotes_listedError.parse_eq).2
      Response.denotes_listedError _ hform

/-- An empty array, which is no object, is taken for a body without data. -/
theorem execute_takes_emptyArray :
    Json.parse (Text.pieces (Text.encode "[]")) = .ok (.array []) ∧
    (((Client.ofEndpoint "https://localhost/graphql").execute .basic .ok "\x7bb\x7d" none).result
      fun _ => .response ⟨200, Text.encode "[]", none⟩).result = .ok .null := by
  obtain ⟨request, hsends⟩ := Client.canSend_secure.exists_sends (requestBody "\x7bb\x7d" none)
  have hdenotes : Json.Denotes (Text.pieces (Text.encode "[]")) (.array []) := by
    rw [Text.pieces_encode]
    exact Json.denotes_compact (j := .array []) (by simp) (by decide) (.array (by simp))
  have hform : ResponseBody.HasForm ⟨none, none⟩ (.array []) := by
    refine .array ⟨by decide, rfl, fun _ => rfl, fun j hj => ?_⟩
    cases hj
  have hholds : Response.Holds ⟨200, Text.encode "[]", none⟩ ⟨none, none⟩ :=
    Response.holds_of_hasForm rfl hdenotes hform
  refine ⟨hdenotes.parse_eq, ?_⟩
  rw [Client.execute, hsends.result_send_of_response rfl, Client.result_receive_of_holds hholds]
  rfl

end MutationInput
