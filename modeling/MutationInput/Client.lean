import MutationInput.Event
import MutationInput.Http.Header
import MutationInput.Http.Status
import MutationInput.Network
import MutationInput.Response.Basic
import MutationInput.Variables

/-!
# Executing operations against an endpoint

A client holds an endpoint, a content type and further headers. Executing a query is an interaction
that asks for the reply to one request, if one can be made, and decodes the data of the response;
whatever the status is, the body is decoded. Of the client's headers the request gets all, and for
the content type and the credentials of the address one each where the client has none.
-/
namespace MutationInput

/-- Why an exchange with an endpoint failed. -/
inductive TransportError where
  /-- The data is not of the wanted type. -/
  | decodeData (status : Nat) (mismatch : Json.Mismatch)
  /-- The body that was received is not a response. -/
  | decodeBody (status : Nat) (fault : Json.Fault) (received : List UInt8)
  /-- The name of a header is not one. -/
  | invalidHeaderName (name : String)
  /-- The value of a header is not one. -/
  | invalidHeaderValue (name : String)
  /-- The body ends early, and what is told about that. -/
  | readBody (status : Nat) (reason : String)
  /-- The request could not be sent, or nothing was received, and what is told about that. -/
  | send (endpoint reason : String)

namespace TransportError

/-- The message of an error. -/
def message : TransportError → String
  | .decodeData status _ => "decoding response data (HTTP " ++ Http.statusText status ++ ")"
  | .decodeBody status _ _ => "decoding response envelope (HTTP " ++ Http.statusText status ++ ")"
  | .invalidHeaderName name => "invalid header name `" ++ name ++ "`"
  | .invalidHeaderValue name => "invalid value for header `" ++ name ++ "`"
  | .readBody status _ => "reading response body (HTTP " ++ Http.statusText status ++ ")"
  | .send endpoint _ => "sending request to " ++ endpoint

/-- The message of what caused an error. -/
def cause (lib : Library) : TransportError → String
  | .decodeData _ mismatch => mismatch.message
  | .decodeBody _ _ received => lib.bodyFault received
  | .invalidHeaderName _ => "invalid HTTP header name"
  | .invalidHeaderValue _ => "failed to parse header value"
  | .readBody _ reason => reason
  | .send _ reason => reason

/-- The status of the response, if one was received. -/
def status? : TransportError → Option Nat
  | .decodeData status _ => some status
  | .decodeBody status _ _ => some status
  | .readBody status _ => some status
  | _ => none

end TransportError

/-- Why an execution failed: the response lists errors, or the exchange failed. -/
inductive ExecuteError where
  | listed (errors : List ResponseError)
  | transport (e : TransportError)

namespace ExecuteError

/-- The message of an error. -/
def message : ExecuteError → String
  | .listed errors =>
    "GraphQL endpoint returned " ++ toString errors.length ++ " error(s): " ++
      "; ".intercalate (errors.map ResponseError.display)
  | .transport e => e.message

end ExecuteError

/-- The JSON object that is sent for a query: the query, and the variables unless there are none. -/
def requestJson (query : String) (bindings : Option Variables) : Json :=
  .object <|
    ("query", .string query) ::
      match bindings with
      | none => []
      | some v => if v.isEmpty then [] else [("variables", Variables.toJson v)]

/-- The body that is sent for a query. -/
def requestBody (query : String) (bindings : Option Variables) : String :=
  (requestJson query bindings).compact

/-- What sends queries to one endpoint. -/
structure Client where
  contentType : String
  endpoint : String
  /-- The further headers by their names in lower case. -/
  headers : Dict String
  deriving DecidableEq, Repr

namespace Client

/-- The content type unless another one is set. -/
def defaultContentType : String := "application/json"

/-- The client of an endpoint, without further headers. -/
def ofEndpoint (endpoint : String) : Client :=
  ⟨defaultContentType, endpoint, Dict.empty⟩

/-- The client with another content type. -/
def withContentType (c : Client) (contentType : String) : Client :=
  { c with contentType := contentType }

/-- The client with a further header, which replaces one of the same name. -/
def withHeader (c : Client) (name value : String) : Except TransportError Client :=
  match Http.headerName? name with
  | none => .error (.invalidHeaderName name)
  | some key =>
    if Http.isHeaderValue value then .ok { c with headers := c.headers.insert key value }
    else .error (.invalidHeaderValue name)

/-- The headers of a request to an endpoint. -/
def headersFor (c : Client) (endpoint : Http.Endpoint) : Dict String :=
  let headers := c.headers.insertNew "content-type" c.contentType
  match endpoint.credentials with
  | none => headers
  | some credentials => headers.insertNew "authorization" credentials.authorization

/-- The request for a body, if the endpoint and the content type allow one. -/
def request? (c : Client) (lib : Library) (body : String) : Option Request :=
  match Http.Endpoint.parse? lib c.endpoint with
  | none => none
  | some endpoint =>
    if Http.isHeaderValue c.contentType then some ⟨endpoint, c.headersFor endpoint, body⟩ else none

/-- What a decoded body comes to: the errors it lists, or its data, null if it has none, as the
wanted type. -/
def outcome {α : Type} (status : Nat) (decode : Json → Except Json.Mismatch α)
    (body : ResponseBody) : Except ExecuteError α :=
  match body.errors with
  | some (e :: es) => .error (.listed (e :: es))
  | _ =>
    match decode (body.data.getD .null) with
    | .ok x => .ok x
    | .error mismatch => .error (.transport (.decodeData status mismatch))

/-- What a response comes to. -/
def receive {α : Type} (decode : Json → Except Json.Mismatch α) (r : Response) :
    Logged (Except ExecuteError α) :=
  match r.cutOff? with
  | some reason => .silent (.error (.transport (.readBody r.status reason)))
  | none =>
    match ResponseBody.decoder.parse (Text.pieces r.body) with
    | .error fault => .silent (.error (.transport (.decodeBody r.status fault r.body)))
    | .ok decoded =>
      let events :=
        match decoded.errors with
        | some (e :: es) => [.errorsReturned (e :: es).length]
        | _ => []
      ⟨events, outcome r.status decode decoded⟩

/-- What a reply comes to. -/
def settle {α : Type} (c : Client) (decode : Json → Except Json.Mismatch α) :
    Reply → Logged (Except ExecuteError α)
  | .unreachable reason => .silent (.error (.transport (.send c.endpoint reason)))
  | .hungUp reason => .silent (.error (.transport (.send c.endpoint reason)))
  | .response r => (receive decode r).report [.responded c.endpoint (Http.statusText r.status)]

/-- Sends a body and decodes the data of the response. -/
def send {α : Type} (c : Client) (lib : Library) (decode : Json → Except Json.Mismatch α)
    (body : String) : Interaction (Logged (Except ExecuteError α)) :=
  let posting := [Event.posting body.utf8ByteSize c.endpoint]
  match c.request? lib body with
  | none =>
    let reason := lib.requestFault c.endpoint c.contentType
    .done ⟨posting, .error (.transport (.send c.endpoint reason))⟩
  | some request => .ask request fun reply => .done ((c.settle decode reply).report posting)

/-- Executes a query with or without variables and decodes its data. -/
def execute {α : Type} (c : Client) (lib : Library) (decode : Json → Except Json.Mismatch α)
    (query : String) (bindings : Option Variables) :
    Interaction (Logged (Except ExecuteError α)) :=
  c.send lib decode (requestBody query bindings)

end Client

end MutationInput
