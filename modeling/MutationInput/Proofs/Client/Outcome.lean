import MutationInput.Proofs.Client.Request
import MutationInput.Proofs.Json.Printed
import MutationInput.Proofs.Response
import MutationInput.Proofs.Text.Decoding

/-!
# What an execution comes to

What comes back for a request decides the outcome of sending it, by one rule for each way in which
it can end. `Reply.Yields` has these rules, and sending follows them, `send_follows`. What a
response holds is what the members of the object in it say. Its status is carried along and decides
nothing.
-/
namespace MutationInput

namespace TransportError

/-- The error with another status, if it has one. -/
def withStatus (status : Nat) : TransportError → TransportError
  | .decodeData _ mismatch => .decodeData status mismatch
  | .decodeBody _ fault received => .decodeBody status fault received
  | .readBody _ reason => .readBody status reason
  | e => e

end TransportError

namespace ExecuteError

/-- The error with another status, if it has one. -/
def withStatus (status : Nat) : ExecuteError → ExecuteError
  | .transport e => .transport (e.withStatus status)
  | e => e

end ExecuteError

namespace Reply

/-- The status of the response, if there is one. -/
def status? : Reply → Option Nat
  | .response r => some r.status
  | _ => none

/-- The reply with another status, if it is a response. -/
def withStatus (status : Nat) : Reply → Reply
  | .response r => .response { r with status := status }
  | reply => reply

end Reply

/-- The body of a response was received whole and is `body`. -/
structure Response.Holds (r : Response) (body : ResponseBody) : Prop where
  complete : r.cutOff? = none
  decoded : ResponseBody.decoder.parse (Text.pieces r.body) = .ok body

/-- The outcome of a request to `endpoint` by what came back for it. -/
inductive Reply.Yields {α : Type} (endpoint : String) (decode : Json → Except Json.Mismatch α) :
    Reply → Except ExecuteError α → Prop where
  /-- Nobody listens. -/
  | unreachable (reason : String) :
      Yields endpoint decode (.unreachable reason) (.error (.transport (.send endpoint reason)))
  /-- There is no response. -/
  | hungUp (reason : String) :
      Yields endpoint decode (.hungUp reason) (.error (.transport (.send endpoint reason)))
  /-- The body ends early. -/
  | cutOff {r : Response} {reason : String} (cut : r.cutOff? = some reason) :
      Yields endpoint decode (.response r) (.error (.transport (.readBody r.status reason)))
  /-- The body is not one of a response. -/
  | undecodable {r : Response} {fault : Json.Fault} (complete : r.cutOff? = none)
      (failed : ResponseBody.decoder.parse (Text.pieces r.body) = .error fault) :
      Yields endpoint decode (.response r)
        (.error (.transport (.decodeBody r.status fault r.body)))
  /-- The body lists errors, whatever its data is. -/
  | listed {r : Response} {body : ResponseBody} {errors : List ResponseError} (holds : r.Holds body)
      (found : body.errors = some errors) (some_error : errors ≠ []) :
      Yields endpoint decode (.response r) (.error (.listed errors))
  /-- The body lists no errors, and its data is of the wanted type. -/
  | data {r : Response} {body : ResponseBody} {x : α} (holds : r.Holds body)
      (no_error : body.errors.getD [] = []) (decoded : decode (body.data.getD .null) = .ok x) :
      Yields endpoint decode (.response r) (.ok x)
  /-- The body lists no errors, and its data is of another type. -/
  | wrongData {r : Response} {body : ResponseBody} {mismatch : Json.Mismatch} (holds : r.Holds body)
      (no_error : body.errors.getD [] = [])
      (failed : decode (body.data.getD .null) = .error mismatch) :
      Yields endpoint decode (.response r)
        (.error (.transport (.decodeData r.status mismatch)))

namespace Reply.Yields

variable {α : Type} {endpoint : String} {decode : Json → Except Json.Mismatch α} {reply : Reply}

/-- A failed exchange tells the status of the response, if there was one. -/
theorem status?_eq {e : TransportError}
    (h : reply.Yields endpoint decode (.error (.transport e))) : e.status? = reply.status? := by
  cases h <;> rfl

/-- Another status leads to the same outcome, with that status in it. -/
theorem withStatus {o : Except ExecuteError α} (h : reply.Yields endpoint decode o)
    (status : Nat) :
    (reply.withStatus status).Yields endpoint decode (o.mapError (·.withStatus status)) := by
  cases h with
  | unreachable reason => exact .unreachable reason
  | hungUp reason => exact .hungUp reason
  | @cutOff r _ cut => exact .cutOff (r := { r with status := status }) cut
  | @undecodable r _ complete failed =>
      exact .undecodable (r := { r with status := status }) complete failed
  | @listed r _ _ holds found some_error =>
      exact .listed (r := { r with status := status }) ⟨holds.complete, holds.decoded⟩ found
        some_error
  | @data r _ _ holds no_error decoded =>
      exact .data (r := { r with status := status }) ⟨holds.complete, holds.decoded⟩ no_error
        decoded
  | @wrongData r _ _ holds no_error failed =>
      exact .wrongData (r := { r with status := status }) ⟨holds.complete, holds.decoded⟩ no_error
        failed

end Reply.Yields

namespace Client

variable {α : Type} {decode : Json → Except Json.Mismatch α}

/-- Without errors the data decides. -/
theorem outcome_of_no_error {status : Nat} {body : ResponseBody} (h : body.errors.getD [] = []) :
    outcome status decode body =
      match decode (body.data.getD .null) with
      | .ok x => .ok x
      | .error mismatch => .error (.transport (.decodeData status mismatch)) := by
  unfold outcome
  split
  · next herrors => simp [herrors] at h
  · rfl

/-- A body that was decoded comes to what one of the rules says. -/
theorem yields_outcome {endpoint : String} {r : Response} {body : ResponseBody}
    (h : r.Holds body) :
    Reply.Yields endpoint decode (.response r) (outcome r.status decode body) := by
  by_cases hlist : body.errors.getD [] = []
  · rw [outcome_of_no_error hlist]
    cases hdata : decode (body.data.getD .null) with
    | ok x => exact .data h hlist hdata
    | error mismatch => exact .wrongData h hlist hdata
  · cases herrors : body.errors with
    | none => simp [herrors] at hlist
    | some errors =>
        rw [herrors, Option.getD_some] at hlist
        obtain ⟨e, es, rfl⟩ := List.exists_cons_of_ne_nil hlist
        rw [outcome, herrors]
        exact .listed h herrors hlist

/-- A response comes to what one of the rules says. -/
theorem yields_receive (endpoint : String) (r : Response) :
    Reply.Yields endpoint decode (.response r) (receive decode r).result := by
  cases hcut : r.cutOff? with
  | some reason =>
      simp only [receive, hcut]
      exact .cutOff hcut
  | none =>
      simp only [receive, hcut]
      cases hbody : ResponseBody.decoder.parse (Text.pieces r.body) with
      | error fault => exact .undecodable hcut hbody
      | ok body => exact yields_outcome ⟨hcut, hbody⟩

theorem result_receive_of_holds {r : Response} {body : ResponseBody} (h : r.Holds body) :
    (receive decode r).result = outcome r.status decode body := by
  simp [receive, h.complete, h.decoded]

/-- No two rules contradict one another. -/
theorem result_receive_of_yields {endpoint : String} {r : Response} {o : Except ExecuteError α}
    (h : Reply.Yields endpoint decode (.response r) o) : (receive decode r).result = o := by
  cases h with
  | cutOff cut => simp [receive, cut, Logged.silent]
  | undecodable complete failed => simp [receive, complete, failed, Logged.silent]
  | @listed _ body errors holds found some_error =>
      obtain ⟨e, es, rfl⟩ := List.exists_cons_of_ne_nil some_error
      rw [result_receive_of_holds holds, outcome, found]
  | data holds no_error decoded =>
      rw [result_receive_of_holds holds, outcome_of_no_error no_error, decoded]
  | wrongData holds no_error failed =>
      rw [result_receive_of_holds holds, outcome_of_no_error no_error, failed]

/-- A reply comes to what the rules say, and to nothing else. -/
theorem result_settle_eq_iff {c : Client} {reply : Reply} (o : Except ExecuteError α) :
    (c.settle decode reply).result = o ↔ reply.Yields c.endpoint decode o := by
  cases reply with
  | unreachable reason =>
      constructor
      · rintro rfl
        exact .unreachable reason
      · rintro ⟨⟩
        rfl
  | hungUp reason =>
      constructor
      · rintro rfl
        exact .hungUp reason
      · rintro ⟨⟩
        rfl
  | response r =>
      constructor
      · rintro rfl
        exact yields_receive c.endpoint r
      · exact result_receive_of_yields

/-- Sending a request comes to what the rules say for the reply to it, and to nothing else. -/
theorem Sends.result_send_eq_iff {c : Client} {lib : Library} {body : String} {request : Request}
    (h : c.Sends lib body request) (network : Request → Reply) (o : Except ExecuteError α) :
    ((c.send lib decode body).result network).result = o ↔
      (network request).Yields c.endpoint decode o := by
  rw [h.result_send, result_settle_eq_iff]

end Client

/-- What a response holds is what the object in its bytes says, if no name is repeated there. -/
theorem Response.holds_iff {r : Response} (hcomplete : r.cutOff? = none)
    {members : List (String × Json)} (h : Json.Denotes (Text.pieces r.body) (.object members))
    (body : ResponseBody) : r.Holds body ↔ body.IsGivenBy members := by
  rw [← ResponseBody.parse_eq_ok_iff h]
  exact ⟨Response.Holds.decoded, fun hbody => ⟨hcomplete, hbody⟩⟩

/-- Wherever a request can be made, sending a body asks for the reply to one, and what it comes to
is decided by this reply, by one rule for each way in which it can end. Where the bytes of a
response are an object, the data and the errors are its members, which may be absent or null. A
failed exchange tells the status that was received, and nothing else depends on it. -/
theorem send_follows {α : Type} (c : Client) (lib : Library) (network : Request → Reply)
    (decode : Json → Except Json.Mismatch α) (body : String) (h : c.CanSend lib) :
    ∃ request, c.Sends lib body request ∧ (c.send lib decode body).asked network = [request] ∧
      (∀ o, ((c.send lib decode body).result network).result = o ↔
        (network request).Yields c.endpoint decode o) ∧
      (∀ r members, network request = .response r → r.cutOff? = none →
        Json.Denotes (Text.pieces r.body) (.object members) →
          ∀ held, r.Holds held ↔ held.IsGivenBy members) ∧
      (∀ e, ((c.send lib decode body).result network).result = .error (.transport e) →
        e.status? = (network request).status?) ∧
      ∀ status,
        ((c.send lib decode body).result fun r => (network r).withStatus status).result =
          ((c.send lib decode body).result network).result.mapError (·.withStatus status) := by
  obtain ⟨request, hsends⟩ := h.exists_sends body
  refine ⟨request, hsends, hsends.asked_send network, hsends.result_send_eq_iff network,
    fun r members _ hcomplete hmembers => ?_, fun e he => ?_, fun status => ?_⟩
  · exact Response.holds_iff hcomplete hmembers
  · exact ((hsends.result_send_eq_iff network _).mp he).status?_eq
  · exact (hsends.result_send_eq_iff _ _).mpr
      (((hsends.result_send_eq_iff network _).mp rfl).withStatus status)

/-- An object with data of the wrong type beside an error. -/
def partialData : List (String × Json) :=
  [("data", .object [("saved", .number (.integer 0))]),
    ("errors", .array [.object [("message", .string "late")]])]

/-- The response of a failing gateway with these members. -/
def Response.partialData : Response where
  status := 502
  body := Text.encode
    "\x7b\"data\":\x7b\"saved\":0\x7d,\"errors\":[\x7b\"message\":\"late\"\x7d]\x7d"
  cutOff? := none

theorem Response.denotes_partialData :
    Json.Denotes (Text.pieces Response.partialData.body) (.object MutationInput.partialData) := by
  have htext : Response.partialData.body =
      Text.encode (Json.object MutationInput.partialData).compact := by decide +kernel
  have hwhole : (Json.object MutationInput.partialData).HasWholeNumbers := by
    simp [MutationInput.partialData, Number.IsWhole, Number.signedBound]
  have hdistinct : (Json.object MutationInput.partialData).Distinct := by
    refine .object (by decide) ?_
    simp only [MutationInput.partialData, List.forall_mem_cons]
    refine ⟨.object (by decide) ?_, .array ?_, by simp⟩
    · simpa using .scalar trivial
    · simp only [List.forall_mem_cons]
      exact ⟨.object (by decide) (by simpa using .scalar trivial), by simp⟩
  rw [htext, Text.pieces_encode]
  exact Json.denotes_compact hwhole (by decide) hdistinct

theorem send_follows_partialData :
    (((Client.ofEndpoint "https://localhost/graphql").send .basic Json.Decoder.boolean.ofJson
      "").result fun _ => .response .partialData).result =
        .error (.listed [.ofMessage "late"]) := by
  obtain ⟨request, -, -, hyields, hholds, -, -⟩ :=
    send_follows _ .basic (fun _ => .response .partialData) Json.Decoder.boolean.ofJson ""
      Client.canSend_secure
  have hgiven : ResponseBody.IsGivenBy
      ⟨some (.object [("saved", .number (.integer 0))]), some [.ofMessage "late"]⟩
      partialData := by
    constructor
    · rfl
    · intro h
      cases h
    · intro j hj
      cases hj
      exact ⟨_, rfl, rfl⟩
  have hheld := (hholds _ _ rfl rfl Response.denotes_partialData _).mpr hgiven
  exact (hyields _).mpr (.listed hheld rfl (by simp))

end MutationInput
