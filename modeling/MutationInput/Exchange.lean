import MutationInput.Client
import MutationInput.Http.Extent

/-!
# The bytes of an exchange

A request is written as its first line, its headers, an empty line and its body. Unless it says
otherwise itself, it asks for the connection to be closed after the response. Of the headers that
tell where the body ends, those that are given are kept if they make sense and mended if not. What
is received is a response, or nothing if there is no complete head.
-/
namespace MutationInput

namespace Request

/-- The length of the body that the headers announce, if they do. -/
def announcedLength? (r : Request) : Option Nat :=
  Http.announcedLength? (r.headers.get? "content-length").toList

/-- Where the body ends: a coding that is given means chunks, a length that is given is kept to. -/
def extent (r : Request) : Http.Extent :=
  if r.headers.contains "transfer-encoding" then .chunked
  else .length (r.announcedLength?.getD r.body.utf8ByteSize)

/-- The headers of the request as they are sent. Codings that are given end with the one in chunks
and leave no place for a length; without any, a length that is none is replaced by the one of the
body. -/
def sentHeaders (r : Request) : Dict String :=
  match r.headers.get? "transfer-encoding" with
  | none =>
    if r.announcedLength?.isSome then r.headers
    else r.headers.insert "content-length" (toString r.body.utf8ByteSize)
  | some codings =>
    let headers :=
      if r.announcedLength?.isSome then r.headers.erase "content-length" else r.headers
    if Http.endsChunked [codings] then headers
    else headers.insert "transfer-encoding" (codings ++ ", chunked")

/-- The headers that are written: those of the request, and those that every request has. -/
def allHeaders (r : Request) : Dict String :=
  let standard : Dict String :=
    Dict.ofList [("accept", "*/*"), ("host", r.endpoint.authority), ("connection", "close")]
  r.sentHeaders.entries.foldl (fun d h => d.insert h.1 h.2) standard

/-- The bytes of the body as they are written. -/
def payload (r : Request) : List UInt8 :=
  r.extent.write (Text.encode r.body)

/-- The bytes of a request. -/
def bytes (r : Request) : List UInt8 :=
  let headers := r.allHeaders.entries.map fun h => h.1 ++ ": " ++ h.2 ++ "\r\n"
  let head := "POST " ++ r.endpoint.target ++ " HTTP/1.1\r\n" ++ String.join headers ++ "\r\n"
  Text.encode head ++ r.payload

end Request

namespace Reply

/-- The reply that the received bytes are, when no others follow. If they end early or are no
response, `reason` is told about that. -/
def ofBytes (reason : String) (received : List UInt8) : Reply :=
  match Http.Head.readFinal? received with
  | none => .hungUp reason
  | some (head, rest) =>
    match Http.Extent.ofHead? head with
    | none => .hungUp reason
    | some extent =>
      let (body, complete) := extent.cut rest
      .response ⟨head.status, body, if complete then none else some reason⟩

/-- Whether the received bytes hold a whole reply, so that others that follow do not matter. -/
def isSettled (received : List UInt8) : Bool :=
  match Http.Head.readFinal? received with
  | none => false
  | some (head, rest) =>
    match Http.Extent.ofHead? head with
    | none => true
    | some .untilClose => false
    | some extent => (extent.cut rest).2

end Reply

end MutationInput
