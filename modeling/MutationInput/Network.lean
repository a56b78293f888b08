import MutationInput.Dict
import MutationInput.Http.Endpoint

/-!
# Requests and replies

A request is sent to an endpoint, and a reply comes back for it: a response, or a reason why there
is none. To follow a response that points to another place is up to the network, and not counted as
a request of its own: the reply is what comes back in the end. What is done at the network is an
interaction: it asks for the replies to requests one after the other, going on by what they are, and
ends with a value. So what is asked and what it comes to are read off the same interaction, for any
network.
-/
namespace MutationInput

/-- A request as it is sent. -/
structure Request where
  endpoint : Http.Endpoint
  /-- The headers by their names in lower case. -/
  headers : Dict String
  body : String
  deriving DecidableEq, Repr

/-- A response: its status, and the bytes of the body that were received. -/
structure Response where
  status : Nat
  body : List UInt8
  /-- What is told about a body that ends early, if it does. -/
  cutOff? : Option String
  deriving DecidableEq, Repr

/-- What comes back for a request in the end. -/
inductive Reply where
  /-- Nobody listens at the endpoint, and what is told about that; nothing was sent. -/
  | unreachable (reason : String)
  /-- The request was sent and no response received, and what is told about that. -/
  | hungUp (reason : String)
  | response (r : Response)
  deriving DecidableEq, Repr

/-- Requests for replies, each with how to go on, and a value in the end. -/
inductive Interaction (α : Type) where
  | done (x : α)
  | ask (request : Request) (next : Reply → Interaction α)

namespace Interaction

variable {α β : Type}

/-- The interaction that ends with the image of the value. -/
def map (f : α → β) : Interaction α → Interaction β
  | done x => done (f x)
  | ask request next => ask request fun reply => (next reply).map f

/-- The requests that are asked of a network, in order. -/
def asked (network : Request → Reply) : Interaction α → List Request
  | done _ => []
  | ask request next => request :: (next (network request)).asked network

/-- The value in the end, with the replies of a network. -/
def result (network : Request → Reply) : Interaction α → α
  | done x => x
  | ask request next => (next (network request)).result network

end Interaction

end MutationInput
