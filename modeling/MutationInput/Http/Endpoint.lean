import MutationInput.Http.Host
import MutationInput.Number
import MutationInput.Text.Base64

/-!
# Endpoints

An endpoint is an absolute address of the scheme `http` or `https`: perhaps a user, a host, perhaps
a port, and the target of the request, which is the path with dot segments resolved and the query. A
fragment is left out. Characters that may not stand in a target are written by their bytes in
hexadecimal. The length of an address is limited.
-/
namespace MutationInput.Http

/-- How a host is spoken to: openly, or over a secure connection. -/
inductive Scheme where
  | http
  | https
  deriving DecidableEq, Repr

namespace Scheme

/-- The word for a scheme. -/
def word : Scheme → String
  | .http => "http"
  | .https => "https"

/-- The port unless another one is given. -/
def port : Scheme → Nat
  | .http => 80
  | .https => 443

/-- The scheme of a word in any letter case. -/
def ofWord? (cs : List Char) : Option Scheme :=
  let word := String.ofList (cs.map Char.toLower)
  if word = "http" then some .http else if word = "https" then some .https else none

end Scheme

/-- Who asks: the name of a user, and perhaps a password. -/
structure Credentials where
  user : String
  password : Option String
  deriving DecidableEq, Repr

/-- The header that tells who asks. -/
def Credentials.authorization (c : Credentials) : String :=
  "Basic " ++ Text.base64 (Text.encode (c.user ++ ":" ++ c.password.getD ""))

/-- Where a request goes. -/
structure Endpoint where
  scheme : Scheme
  credentials : Option Credentials
  host : Host
  port : Nat
  target : String
  deriving DecidableEq, Repr

namespace Endpoint

/-- The host with its port, unless that is the default one. -/
def authority (e : Endpoint) : String :=
  if e.port = e.scheme.port then e.host.text else e.host.text ++ ":" ++ toString e.port

/-- Whether a character is dropped at the ends of an address. -/
def isEdge (c : Char) : Bool :=
  c.toNat ≤ 0x20

/-- The characters of an address that count: none at the ends up to the space, no tabs and no line
ends. -/
def significant (s : String) : List Char :=
  (Text.stripEnds isEdge s.toList).filter fun c => c != '\t' && c != '\n' && c != '\r'

/-- Whether a character stands between segments of a path. -/
def isSlash (c : Char) : Bool :=
  c == '/' || c == '\\'

/-- Whether a character ends the host and port. -/
def endsAuthority (c : Char) : Bool :=
  isSlash c || c == '?' || c == '#'

/-! ## The target -/

/-- The characters of a path that are encoded, apart from controls and those beyond ASCII. -/
def encodedInPath (c : Char) : Bool :=
  [' ', '"', '#', '<', '>', '?', '`', '\x7b', '\x7d'].contains c

/-- The characters of a query that are encoded, apart from controls and those beyond ASCII. -/
def encodedInQuery (c : Char) : Bool :=
  [' ', '"', '#', '<', '>', '\''].contains c

/-- The characters of a fragment that are encoded, apart from controls and those beyond ASCII. -/
def encodedInFragment (c : Char) : Bool :=
  [' ', '"', '<', '>', '`'].contains c

/-- Whether a segment stands for the place it is in. -/
def isHere (segment : List Char) : Bool :=
  [".", "%2e"].contains (String.ofList (segment.map Char.toLower))

/-- Whether a segment stands for the place above. -/
def isUp (segment : List Char) : Bool :=
  ["..", ".%2e", "%2e.", "%2e%2e"].contains (String.ofList (segment.map Char.toLower))

/-- Whether a segment names a drive: a letter and a colon or bar. -/
def isDrive : List Char → Bool
  | [letter, mark] => letter.isAlpha && (mark == ':' || mark == '|')
  | _ => false

/-- The place above the one that segments lead to, all in reverse. Nothing is above a drive or above
the root. -/
def above : List (List Char) → List (List Char)
  | [] => []
  | segment :: rest => if isDrive segment then segment :: rest else rest

/-- The segments, after those before them in reverse, with dot segments resolved. A dot segment at
the end leaves an empty segment. -/
def resolve (before : List (List Char)) : List (List Char) → List (List Char)
  | [] => before.reverse
  | [last] =>
    if isUp last then ([] :: above before).reverse
    else if isHere last then ([] :: before).reverse
    else (last :: before).reverse
  | segment :: rest =>
    if isUp segment then resolve (above before) rest
    else if isHere segment then resolve before rest
    else resolve (segment :: before) rest

/-- The path of an address as it is sent, from its first slash on. -/
def path (cs : List Char) : List Char :=
  (resolve [] (Text.parts isSlash (cs.drop 1))).flatMap fun segment =>
    '/' :: segment.flatMap (Text.percentEncode encodedInPath)

/-- The query of an address as it is sent, from its question mark on. -/
def query : List Char → List Char
  | [] => []
  | cs => '?' :: (cs.drop 1).flatMap (Text.percentEncode encodedInQuery)

/-- The fragment of an address as it is counted, from its number sign on. -/
def fragment : List Char → List Char
  | [] => []
  | cs => '#' :: (cs.drop 1).flatMap (Text.percentEncode encodedInFragment)

/-- What is sent of the place at a host. -/
def targetOf (place : List Char) : List Char :=
  let place := place.takeWhile (· != '#')
  path (place.takeWhile (· != '?')) ++ query (place.dropWhile (· != '?'))

/-- The fragment that follows the place at a host. -/
def fragmentOf (place : List Char) : List Char :=
  fragment (place.dropWhile (· != '#'))

/-! ## The authority -/

/-- What stands before and at the last at sign, and what stands behind it. -/
def splitUser (cs : List Char) : List Char × List Char :=
  ((cs.reverse.dropWhile (· != '@')).reverse, (cs.reverse.takeWhile (· != '@')).reverse)

/-- The credentials that end with an at sign. An empty password is none. -/
def credentials? (cs : List Char) : Option Credentials := do
  let cs := cs.dropLast
  let secret := (cs.dropWhile (· != ':')).drop 1
  let user ← Text.decode? (Text.percentDecode (cs.takeWhile (· != ':')))
  let password := if secret.isEmpty then none else Text.decode? (Text.percentDecode secret)
  if user.isEmpty && password.isNone then none else some ⟨user, password⟩

/-- The port behind a host: empty for the default one, or a number of sixteen bits. -/
def port? (scheme : Scheme) : List Char → Option Nat
  | [] => some scheme.port
  | mark :: digits =>
    if mark != ':' || !digits.all Char.isDigit then none
    else if digits.isEmpty then some scheme.port
    else
      let n := Numeral.value digits
      if n < UInt16.size then some n else none

/-- The host and the port behind it. -/
def hostAndPort? (lib : Library) (scheme : Scheme) (cs : List Char) : Option (Host × Nat) :=
  match cs with
  | '[' :: rest =>
    match rest.dropWhile (· != ']') with
    | [] => none
    | _ :: port => do
      return (← Host.long? (rest.takeWhile (· != ']')), ← port? scheme port)
  | cs => do
    return (← Host.named? lib (cs.takeWhile (· != ':')), ← port? scheme (cs.dropWhile (· != ':')))

/-! ## Whole addresses -/

/-- The greatest length of an address in bytes, with its fragment. -/
def maxAddress : Nat := 65534

/-- The length of the address of an endpoint, with a fragment behind it. -/
def addressLength (e : Endpoint) (fragment : List Char) : Nat :=
  (e.scheme.word ++ "://" ++ e.authority ++ e.target).length + fragment.length

/-- The endpoint that is written behind the slashes of an address. -/
def locate? (lib : Library) (scheme : Scheme) (cs : List Char) : Option Endpoint := do
  let (user, site) := splitUser (cs.takeWhile (!endsAuthority ·))
  let place := cs.dropWhile (!endsAuthority ·)
  let (host, port) ← hostAndPort? lib scheme site
  let endpoint : Endpoint :=
    ⟨scheme, credentials? user, host, port, String.ofList (targetOf place)⟩
  if addressLength endpoint (fragmentOf place) ≤ maxAddress then some endpoint else none

/-- The endpoint that a text gives, if it is an absolute address of one of the schemes. -/
def parse? (lib : Library) (s : String) : Option Endpoint := do
  let cs := significant s
  let scheme ← Scheme.ofWord? (cs.takeWhile (· != ':'))
  locate? lib scheme (((cs.dropWhile (· != ':')).drop 1).dropWhile isSlash)

end Endpoint

end MutationInput.Http
