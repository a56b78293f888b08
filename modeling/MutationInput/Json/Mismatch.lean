import MutationInput.Json.Basic
import MutationInput.Text.Quoted

/-!
# Values of the wrong shape

Decoding a JSON value into a type fails with a `Mismatch`, which says what was found and what was
wanted. `message` words it.
-/
namespace MutationInput.Json

/-- What a decoder wants to find. -/
inductive Expected where
  | map
  | sequence
  | string
  | boolean
  | unit
  /-- An integer of 64 bits with a sign. -/
  | signed
  /-- An integer of 64 bits without a sign. -/
  | unsigned
  /-- A record of the given name. -/
  | record (name : String)
  deriving DecidableEq, Repr

/-- The words for what is wanted. -/
def Expected.words : Expected → String
  | .map => "a map"
  | .sequence => "a sequence"
  | .string => "a string"
  | .boolean => "a boolean"
  | .unit => "unit"
  | .signed => "i64"
  | .unsigned => "usize"
  | .record name => "struct " ++ name

/-- Why a value does not decode. -/
inductive Mismatch where
  /-- The value is of another type. -/
  | wrongType (found : Json) (expected : Expected)
  /-- The integer is outside the wanted range. -/
  | outOfRange (n : Int) (expected : Expected)
  /-- The object lacks a required member. -/
  | missingField (key : String)
  /-- The array ends before a required field of a record with so many fields. -/
  | tooShort (given : Nat) (record : String) (fields : Nat)
  /-- The array has more items than the record has fields. -/
  | tooLong (given : Nat)
  /-- The value is neither an index nor a name. -/
  | noSegment

/-- The words for a value that was found. -/
def foundWords : Json → String
  | .null => "null"
  | .bool b => "boolean `" ++ (if b then "true" else "false") ++ "`"
  | .number (.integer n) => "integer `" ++ String.ofList (Number.integer n).text ++ "`"
  | .number (.float x) => "floating point `" ++ String.ofList x.text ++ "`"
  | .string s => "string " ++ Text.quoted s
  | .array _ => "sequence"
  | .object _ => "map"

/-- The message of a mismatch. -/
def Mismatch.message : Mismatch → String
  | .wrongType found expected =>
    "invalid type: " ++ foundWords found ++ ", expected " ++ expected.words
  | .outOfRange n expected =>
    "invalid value: " ++ foundWords (.number (.integer n)) ++ ", expected " ++ expected.words
  | .missingField key => "missing field `" ++ key ++ "`"
  | .tooShort given record fields =>
    "invalid length " ++ toString given ++ ", expected struct " ++ record ++ " with " ++
      toString fields ++ (if fields = 1 then " element" else " elements")
  | .tooLong given => "invalid length " ++ toString given ++ ", expected fewer elements in array"
  | .noSegment => "data did not match any variant of untagged enum PathSegment"

end MutationInput.Json
