import MutationInput.Number

/-!
# JSON values

An object is the list of its members. Two orders of members matter: the order in which they are
written, which an encoder chooses, and ascending order of the names with each name once, in which
the reader gives every object (`ofMembers`, the last member of a name winning). `canonical` brings
a value into the second order at every depth; `IsCanonical` says that it is there already.
-/
namespace MutationInput

/-- A JSON value. -/
inductive Json where
  | null
  | bool (b : Bool)
  | number (n : Number)
  | string (s : String)
  | array (items : List Json)
  | object (members : List (String × Json))
  deriving Inhabited

namespace Json

/-- Members in ascending order of names with the value `v` under the name `k`, in place of one
that is there. -/
def setMember (k : String) (v : Json) : List (String × Json) → List (String × Json)
  | [] => [(k, v)]
  | e :: rest =>
    if k < e.1 then (k, v) :: e :: rest
    else if e.1 = k then (k, v) :: rest
    else e :: setMember k v rest

/-- The members in ascending order of names, the last one of each name. -/
def sortMembers (members : List (String × Json)) : List (String × Json) :=
  members.foldl (fun sorted e => setMember e.1 e.2 sorted) []

/-- The object with these members, the last one of a name winning. -/
def ofMembers (members : List (String × Json)) : Json :=
  .object (sortMembers members)

mutual

/-- The value with the members of every object sorted by name. -/
def canonical : Json → Json
  | .array items => .array (canonicalItems items)
  | .object members => ofMembers (canonicalMembers members)
  | j => j

/-- The items of an array with the members of every object in them sorted by name. -/
def canonicalItems : List Json → List Json
  | [] => []
  | j :: items => j.canonical :: canonicalItems items

/-- The members of an object with the members of every object in them sorted by name. -/
def canonicalMembers : List (String × Json) → List (String × Json)
  | [] => []
  | (k, j) :: members => (k, j.canonical) :: canonicalMembers members

end

/-- Whether names stand in strictly ascending order. -/
def Ascending (members : List (String × Json)) : Prop :=
  members.Pairwise fun a b => a.1 < b.1

mutual

/-- Every object has its members in strictly ascending order of names. -/
def IsCanonical : Json → Prop
  | .array items => AllCanonical items
  | .object members => Ascending members ∧ MembersCanonical members
  | _ => True

/-- Every item is canonical. -/
def AllCanonical : List Json → Prop
  | [] => True
  | j :: items => j.IsCanonical ∧ AllCanonical items

/-- The value of every member is canonical. -/
def MembersCanonical : List (String × Json) → Prop
  | [] => True
  | (_, j) :: members => j.IsCanonical ∧ MembersCanonical members

end

mutual

/-- How deep arrays and objects are nested in a value. -/
def depth : Json → Nat
  | .array items => depthItems items + 1
  | .object members => depthMembers members + 1
  | _ => 0

/-- The greatest depth of the items. -/
def depthItems : List Json → Nat
  | [] => 0
  | j :: items => max j.depth (depthItems items)

/-- The greatest depth of the values of the members. -/
def depthMembers : List (String × Json) → Nat
  | [] => 0
  | (_, j) :: members => max j.depth (depthMembers members)

end

/-- The member of a name in an object. -/
def member? (k : String) : Json → Option Json
  | .object members => members.lookup k
  | _ => none

/-- The text of a string. -/
def string? : Json → Option String
  | .string s => some s
  | _ => none

end Json

end MutationInput
