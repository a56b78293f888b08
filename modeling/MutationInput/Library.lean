/-!
# What libraries decide

Addresses with names in other scripts are turned into ASCII by tables of Unicode, and what is told
about a text that a library refuses is up to the library. Nothing else depends on either, so both
are left open.
-/
namespace MutationInput

/-- What libraries decide that is only passed on. -/
structure Library where
  /-- The name of a host in ASCII, for a name that is not in ASCII or is encoded already. -/
  hostName? : String → Option String
  /-- What is told about a text that does not match the grammar of documents. -/
  syntaxFault : String → String
  /-- What is told about a text that is decoded as no variables. -/
  variablesFault : String → String
  /-- What is told about bytes that are decoded as no response body. -/
  bodyFault : List UInt8 → String
  /-- What is told about an endpoint and a content type for which no request can be made. -/
  requestFault : String → String → String

/-- Libraries that know no names in other scripts and tell only what a refused text is not. -/
def Library.basic : Library where
  hostName? := fun _ => none
  syntaxFault := fun _ => "the text does not match the grammar"
  variablesFault := fun _ => "the text is no JSON object of variables"
  bodyFault := fun _ => "the body is no JSON object of a response"
  requestFault := fun _ _ => "the endpoint or the content type cannot be sent"

end MutationInput
