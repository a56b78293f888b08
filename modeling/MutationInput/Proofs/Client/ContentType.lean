import MutationInput.Exchange
import MutationInput.Proofs.Client.Configuration

/-!
# The content type of a request

The headers of a request are those of the client, what the request adds to say where its body ends,
and those that every request has. All names are in lower case, so no spelling of a name hides
another one, and nothing that is added concerns the content type: the request that is sent has
exactly one, `sentValues_contentType`. With that, `configured_reflects` says what any sequence of
calls comes to, from the state of the client to the request that is sent.
-/
namespace MutationInput

/-- Every name is in lower case. -/
def Dict.IsLower (d : Dict String) : Prop :=
  ∀ k v, d.get? k = some v → Text.lowerAscii k = k

namespace Dict.IsLower

variable {d e : Dict String}

theorem insert (h : d.IsLower) {k : String} (hk : Text.lowerAscii k = k) (v : String) :
    (d.insert k v).IsLower := by
  intro k' v' hget
  rw [get?_insert] at hget
  split at hget
  · next heq => rw [heq, hk]
  · exact h k' v' hget

theorem insertNew (h : d.IsLower) {k : String} (hk : Text.lowerAscii k = k) (v : String) :
    (d.insertNew k v).IsLower := by
  unfold Dict.insertNew
  split
  · exact h
  · exact h.insert hk v

theorem erase (h : d.IsLower) (k : String) : (d.erase k).IsLower := by
  intro k' v' hget
  rw [get?_erase] at hget
  split at hget
  · cases hget
  · exact h k' v' hget

theorem foldl_insert (hd : d.IsLower) (he : e.IsLower) :
    Dict.IsLower (e.entries.foldl (fun d x => d.insert x.1 x.2) d) := by
  intro k v hget
  rw [get?_foldl_insert, Option.or_eq_some_iff] at hget
  rcases hget with hget | ⟨-, hget⟩
  · exact he k v hget
  · exact hd k v hget

/-- What is held under a name, in whatever letter case, is held under its lower case. -/
theorem filter_entries (h : d.IsLower) (k : String) :
    (d.entries.filter fun x => Text.lowerAscii x.1 = Text.lowerAscii k).map Prod.snd =
      (d.get? (Text.lowerAscii k)).toList := by
  rw [← Dict.filter_entries]
  congr 1
  refine List.filter_congr fun x hx => ?_
  rw [h x.1 x.2 ((get?_eq_some_iff d x.1 x.2).mpr hx)]

end Dict.IsLower

namespace Request

/-- The headers that every request has. -/
def standardHeaders (r : Request) : Dict String :=
  Dict.ofList [("accept", "*/*"), ("host", r.endpoint.authority), ("connection", "close")]

theorem get?_allHeaders (r : Request) (k : String) :
    r.allHeaders.get? k = (r.sentHeaders.get? k).or (r.standardHeaders.get? k) :=
  Dict.get?_foldl_insert r.standardHeaders r.sentHeaders k

theorem isLower_standardHeaders (r : Request) : r.standardHeaders.IsLower := by
  intro k v hget
  rw [Dict.get?_eq_some_iff] at hget
  rcases List.mem_cons.mp (Dict.mem_of_mem_entries_ofList hget) with h | h
  · cases h
    decide +kernel
  · rcases List.mem_pair.mp h with h | h <;> cases h <;> decide +kernel

/-- Saying where the body ends adds and takes away only headers in lower case. -/
theorem isLower_sentHeaders {r : Request} (h : r.headers.IsLower) : r.sentHeaders.IsLower := by
  have hlength : Text.lowerAscii "content-length" = "content-length" := by decide +kernel
  have hcoding : Text.lowerAscii "transfer-encoding" = "transfer-encoding" := by decide +kernel
  unfold sentHeaders
  split
  · split
    · exact h
    · exact h.insert hlength _
  · have hkept : Dict.IsLower (if r.announcedLength?.isSome then r.headers.erase "content-length"
        else r.headers) := by
      split
      · exact h.erase _
      · exact h
    dsimp only
    split
    · exact hkept
    · exact hkept.insert hcoding _

/-- Saying where the body ends leaves every other header as it is. -/
theorem get?_sentHeaders (r : Request) {k : String} (hlength : k ≠ "content-length")
    (hcoding : k ≠ "transfer-encoding") : r.sentHeaders.get? k = r.headers.get? k := by
  unfold sentHeaders
  split
  · split
    · rfl
    · rw [Dict.get?_insert, if_neg hlength]
  · have hkept : Dict.get? (if r.announcedLength?.isSome then r.headers.erase "content-length"
        else r.headers) k = r.headers.get? k := by
      split
      · rw [Dict.get?_erase, if_neg hlength]
      · rfl
    dsimp only
    split
    · exact hkept
    · rw [Dict.get?_insert, if_neg hcoding, hkept]

/-- The values that are sent under a name, in whatever letter case it is written. -/
def sentValues (r : Request) (name : String) : List String :=
  (r.allHeaders.entries.filter fun h => Text.lowerAscii h.1 = Text.lowerAscii name).map Prod.snd

theorem sentValues_eq {r : Request} (h : r.headers.IsLower) (name : String) :
    r.sentValues name = (r.allHeaders.get? (Text.lowerAscii name)).toList :=
  (Dict.IsLower.foldl_insert r.isLower_standardHeaders (isLower_sentHeaders h)).filter_entries name

end Request

namespace Client

open Call (LastSets)

theorem isLower_headersFor {c : Client} (h : c.headers.IsLower) (endpoint : Http.Endpoint) :
    (c.headersFor endpoint).IsLower := by
  have htype : Text.lowerAscii "content-type" = "content-type" := by decide +kernel
  have hauth : Text.lowerAscii "authorization" = "authorization" := by decide +kernel
  unfold headersFor
  split
  · exact h.insertNew htype _
  · exact (h.insertNew htype _).insertNew hauth _

/-- A request has one content type: that of the further headers, or else that of the client. -/
theorem Sends.sentValues_contentType {c : Client} (hlower : c.headers.IsLower) {lib : Library}
    {body : String} {request : Request} (h : c.Sends lib body request) :
    request.sentValues "content-type" =
      [(c.headers.get? "content-type").getD c.contentType] := by
  have hname : Text.lowerAscii "content-type" = "content-type" := by decide +kernel
  have hsent : request.sentHeaders.get? "content-type" = request.headers.get? "content-type" :=
    request.get?_sentHeaders (by decide) (by decide)
  have hget : request.headers.get? "content-type" =
      some ((c.headers.get? "content-type").getD c.contentType) := by
    rw [h.get?_headers, added, if_pos rfl]
    cases c.headers.get? "content-type" <;> rfl
  have hrequest : request.headers.IsLower := h.headers_eq ▸ isLower_headersFor hlower _
  rw [Request.sentValues_eq hrequest, hname, Request.get?_allHeaders, hsent, hget]
  rfl

theorem Configured.isLower {endpoint : String} {calls : List Call} {c : Client}
    (h : Configured endpoint calls c) : c.headers.IsLower := by
  intro k v hget
  exact ((h.mem_headers_iff k v).mp ((Dict.get?_eq_some_iff _ _ _).mp hget)).lowerAscii_eq

/-- The content type of a request is that of the last accepted call for such a header, or else the
one that was set for the client. -/
inductive CarriesContentType (calls : List Call) (c : Client) : String → Prop where
  | header {value : String} (set : LastSets calls "content-type" value) :
      CarriesContentType calls c value
  | contentType (unset : ∀ value, ¬LastSets calls "content-type" value) :
      CarriesContentType calls c c.contentType

theorem Configured.carriesContentType {endpoint : String} {calls : List Call} {c : Client}
    (h : Configured endpoint calls c) :
    CarriesContentType calls c ((c.headers.get? "content-type").getD c.contentType) := by
  cases hget : c.headers.get? "content-type" with
  | some value =>
      exact .header ((h.mem_headers_iff _ value).mp ((Dict.get?_eq_some_iff _ _ _).mp hget))
  | none =>
      refine .contentType fun value hset => ?_
      have hmem := (Dict.get?_eq_some_iff _ _ _).mpr ((h.mem_headers_iff _ value).mpr hset)
      cases hget.symm.trans hmem

/-- Whatever calls were made, the client has the state that the accepted ones say, and a header is
rejected for its name or its value and then changes nothing. Executing a query asks for the reply to
one request, which has one content type, unless the endpoint is no address or the content type has a
control character; then nothing is asked, and that is reported. -/
theorem configured_reflects (endpoint : String) (calls : List Call) (lib : Library) :
    Configured endpoint calls (configured endpoint calls) ∧
    (∀ name value e, (configured endpoint calls).withHeader name value = .error e ↔
      Rejects name value e) ∧
    (∀ x e, (configured endpoint calls).call x = .error e →
      configured endpoint (calls ++ [x]) = configured endpoint calls) ∧
    ((configured endpoint calls).CanSend lib ↔
      (∃ e, Http.Endpoint.Addresses lib endpoint e) ∧
        ¬Http.HasControl (configured endpoint calls).contentType) ∧
    ∀ (α : Type) (network : Request → Reply) (decode : Json → Except Json.Mismatch α) query
      bindings,
      ((configured endpoint calls).CanSend lib → ∃ request value,
        ((configured endpoint calls).execute lib decode query bindings).asked network = [request] ∧
          request.sentValues "content-type" = [value] ∧
            CarriesContentType calls (configured endpoint calls) value) ∧
      (¬(configured endpoint calls).CanSend lib →
        ((configured endpoint calls).execute lib decode query bindings).asked network = [] ∧
          ∃ reason,
            (((configured endpoint calls).execute lib decode query bindings).result
              network).result = .error (.transport (.send endpoint reason))) := by
  have hstate := configured_of_calls endpoint calls
  refine ⟨hstate, fun _ _ _ => rejects_of_withHeader, fun _ _ => configured_concat_of_error, ?_,
    fun α network decode query bindings => ⟨fun hcan => ?_, fun hcannot => ?_⟩⟩
  · constructor
    · rintro ⟨haddress, hcontrol⟩
      rw [hstate.endpoint_eq] at haddress
      exact ⟨haddress, hcontrol⟩
    · rintro ⟨haddress, hcontrol⟩
      rw [← hstate.endpoint_eq] at haddress
      exact ⟨haddress, hcontrol⟩
  · obtain ⟨request, hsends⟩ := hcan.exists_sends (requestBody query bindings)
    exact ⟨request, _, hsends.asked_send network,
      hsends.sentValues_contentType hstate.isLower, hstate.carriesContentType⟩
  · rw [execute, asked_send_of_not_canSend network hcannot,
      result_send_of_not_canSend network hcannot, hstate.endpoint_eq]
    exact ⟨rfl, _, rfl⟩

/-- A token that is one character too long for the name of a header. -/
def longToken : String :=
  String.ofList (List.replicate (Http.maxHeaderName + 1) 'a')

theorem isToken_longToken : Http.IsToken longToken := by
  have hall : ∀ c ∈ longToken.toList, c = 'a' := by
    intro c hc
    rw [longToken, String.toList_ofList] at hc
    exact List.eq_of_mem_replicate hc
  refine ⟨?_, fun c hc => ?_, fun c hc => ?_⟩
  · intro h
    have hlength : longToken.toList.length = 0 := by rw [h]; rfl
    rw [longToken, String.toList_ofList, List.length_replicate] at hlength
    cases hlength
  · rw [hall c hc]
    decide
  · rw [hall c hc]
    decide +kernel

/-- A name may be rejected although it is a token. -/
theorem withHeader_longToken :
    ¬((configured "http://localhost/graphql" []).withHeader longToken "v" =
      .error (.invalidHeaderName longToken) ↔ ¬Http.IsToken longToken) := by
  have hrejected : (configured "http://localhost/graphql" []).withHeader longToken "v" =
      .error (.invalidHeaderName longToken) := by
    refine rejects_of_withHeader.mpr (.name fun ⟨_, hlength⟩ => ?_)
    rw [longToken, String.length_ofList, List.length_replicate] at hlength
    exact absurd hlength (Nat.not_succ_le_self _)
  exact fun h => h.mp hrejected isToken_longToken

end Client

end MutationInput
