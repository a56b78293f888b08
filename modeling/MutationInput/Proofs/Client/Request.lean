import MutationInput.Client
import MutationInput.Proofs.Dict
import MutationInput.Proofs.Http.Addresses
import MutationInput.Proofs.Http.Tokens
import MutationInput.Proofs.Network

/-!
# The request of a client

A client makes a request for a body if its endpoint is an address and its content type has no
control character, `request?_eq_some_iff`. Sending the body asks for the reply to this request and
for nothing else, `asked_send`; if no request can be made, nothing is asked, and that is reported.
-/
namespace MutationInput.Client

variable {c : Client} {lib : Library} {body : String}

/-- The header that a request gets under a name for which the client has none. -/
def added (c : Client) (endpoint : Http.Endpoint) (name : String) : Option String :=
  if name = "content-type" then some c.contentType
  else if name = "authorization" then endpoint.credentials.map Http.Credentials.authorization
  else none

/-- The headers of a request are those of the client and the added ones. -/
theorem get?_headersFor (c : Client) (endpoint : Http.Endpoint) (name : String) :
    (c.headersFor endpoint).get? name = (c.headers.get? name).or (c.added endpoint name) := by
  have hapart : ¬"authorization" = "content-type" := by decide
  unfold headersFor added
  cases endpoint.credentials with
  | none =>
      simp only [Dict.get?_insertNew, Option.map_none]
      split <;> simp
  | some credentials =>
      simp only [Dict.get?_insertNew, Option.map_some, Option.or_assoc]
      by_cases htype : name = "content-type"
      · simp [htype]
      · by_cases hauth : name = "authorization" <;> simp [htype, hauth, hapart]

/-- Requests can be made: the endpoint is an address, and the content type can be a header. -/
structure CanSend (c : Client) (lib : Library) : Prop where
  addressed : ∃ endpoint, Http.Endpoint.Addresses lib c.endpoint endpoint
  no_control : ¬Http.HasControl c.contentType

/-- A request is the one that is made for a body. -/
structure Sends (c : Client) (lib : Library) (body : String) (request : Request) : Prop where
  addressed : Http.Endpoint.Addresses lib c.endpoint request.endpoint
  no_control : ¬Http.HasControl c.contentType
  headers_eq : request.headers = c.headersFor request.endpoint
  body_eq : request.body = body

theorem isHeaderValue_iff_not_hasControl {value : String} :
    Http.isHeaderValue value = true ↔ ¬Http.HasControl value := by
  rw [Http.isHeaderValue_iff, ← Http.not_isHeaderValue_iff, not_not]

theorem request?_eq_some_iff {request : Request} :
    c.request? lib body = some request ↔ c.Sends lib body request := by
  constructor
  · intro h
    unfold request? at h
    split at h
    · cases h
    · next endpoint hendpoint =>
        split at h
        · next hcontent =>
            cases h
            exact ⟨Http.Endpoint.parse?_eq_some_iff.mp hendpoint,
              isHeaderValue_iff_not_hasControl.mp hcontent, rfl, rfl⟩
        · cases h
  · rintro ⟨haddress, hcontent, hheaders, hbody⟩
    rw [request?, Http.Endpoint.parse?_eq_some_iff.mpr haddress]
    simp only [isHeaderValue_iff_not_hasControl.mpr hcontent, if_true, ← hheaders, ← hbody]

/-- A request is made wherever one can be. -/
theorem CanSend.exists_sends (h : c.CanSend lib) (body : String) :
    ∃ request, c.Sends lib body request := by
  obtain ⟨endpoint, haddress⟩ := h.addressed
  exact ⟨⟨endpoint, c.headersFor endpoint, body⟩, haddress, h.no_control, rfl, rfl⟩

/-- A header of the client is sent as it is, and others only where the request adds them. -/
theorem Sends.get?_headers {request : Request} (h : c.Sends lib body request) (name : String) :
    request.headers.get? name = (c.headers.get? name).or (c.added request.endpoint name) := by
  rw [h.headers_eq, get?_headersFor]

theorem Sends.canSend {request : Request} (h : c.Sends lib body request) : c.CanSend lib :=
  ⟨⟨_, h.addressed⟩, h.no_control⟩

theorem request?_eq_none_iff : c.request? lib body = none ↔ ¬c.CanSend lib := by
  rw [Option.eq_none_iff_forall_ne_some]
  constructor
  · intro hnone hcan
    obtain ⟨request, hrequest⟩ := hcan.exists_sends body
    exact hnone request (request?_eq_some_iff.mpr hrequest)
  · intro hcannot request hrequest
    exact hcannot (request?_eq_some_iff.mp hrequest).canSend

/-- Requests can be made to a secure endpoint. -/
theorem canSend_secure : (ofEndpoint "https://localhost/graphql").CanSend .basic where
  addressed := Http.Endpoint.isSome_parse?_iff.mp (by decide)
  no_control := isHeaderValue_iff_not_hasControl.mp (by decide)

section Sending

variable {α : Type} {decode : Json → Except Json.Mismatch α} (network : Request → Reply)

/-- Sending a body for which a request is made asks for the reply to it. -/
theorem Sends.asked_send {request : Request} (h : c.Sends lib body request) :
    (c.send lib decode body).asked network = [request] := by
  rw [send, request?_eq_some_iff.mpr h]
  rfl

/-- What the reply comes to is the result. -/
theorem Sends.result_send {request : Request} (h : c.Sends lib body request) :
    ((c.send lib decode body).result network).result =
      (c.settle decode (network request)).result := by
  rw [send, request?_eq_some_iff.mpr h]
  rfl

/-- Nothing is asked where no request can be made. -/
theorem asked_send_of_not_canSend (h : ¬c.CanSend lib) :
    (c.send lib decode body).asked network = [] := by
  rw [send, request?_eq_none_iff.mpr h]
  rfl

/-- That no request can be made is reported. -/
theorem result_send_of_not_canSend (h : ¬c.CanSend lib) :
    ((c.send lib decode body).result network).result =
      .error (.transport (.send c.endpoint (lib.requestFault c.endpoint c.contentType))) := by
  rw [send, request?_eq_none_iff.mpr h]
  rfl

end Sending

end MutationInput.Client
