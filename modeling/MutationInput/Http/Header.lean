import MutationInput.Text.Blank

/-!
# Request headers

The name of a header is a token of limited length and is the same in every letter case, so it is
kept in lower case. A value may hold any text without control characters; a tab is allowed.
-/
namespace MutationInput.Http

/-- The greatest length of a header name. -/
def maxHeaderName : Nat := 65535

/-- Whether a character may stand in a header name. -/
def isTokenChar (c : Char) : Bool :=
  c.isAlphanum || "!#$%&'*+-.^_`|~".toList.contains c

/-- The name of a header in lower case, if it is one. -/
def headerName? (s : String) : Option String :=
  let cs := s.toList
  if !cs.isEmpty && cs.length ≤ maxHeaderName && cs.all isTokenChar then some (Text.lowerAscii s)
  else none

/-- Whether a character may stand in the value of a header. -/
def isValueChar (c : Char) : Bool :=
  c == '\t' || (0x20 ≤ c.toNat && c.toNat != 0x7F)

/-- Whether a text is the value of a header. -/
def isHeaderValue (s : String) : Bool :=
  s.toList.all isValueChar

/-- The value of a header as it is received, without spaces and tabs at its ends. -/
def receivedValue (s : String) : String :=
  String.ofList (Text.stripEnds (fun c => c == ' ' || c == '\t') s.toList)

end MutationInput.Http
