import MutationInput.Dict
import MutationInput.Tree.Basic
import MutationInput.Tree.Strings

/-!
# The grammar of executable documents

Tokens may be separated by blanks and comments, and a comma is a blank. Keywords and literals have
no word boundary: `queryFoo` begins a query named `Foo`, and `01` is two numbers. Every parser
below begins at a token and passes over the blanks after it. Nesting is bounded by `depth`, for
which the length of the text is enough.
-/
namespace MutationInput.Tree.Parser

/-- Whether a character is a blank. -/
def isBlank (c : Char) : Bool :=
  c == ' ' || c == ',' || c == '\t' || c == '\uFEFF' || isTerminator c

mutual

/-- The text after blanks and comments. -/
def skipBlank : Located → Located
  | [] => []
  | (c, l) :: s =>
    if isBlank c then skipBlank s
    else if c = '#' then skipComment s
    else (c, l) :: s

/-- The text after a comment, which ends with the line, and the blanks after it. -/
def skipComment : Located → Located
  | [] => []
  | (c, _) :: s => if isTerminator c then skipBlank s else skipComment s

end

/-- Passes over blanks and comments. -/
def blank : Parser Unit := fun s =>
  some ((), skipBlank s)

/-- What `p` reads and the blanks after it. -/
def token {α : Type} (p : Parser α) : Parser α := do
  let x ← p
  blank
  return x

/-- A fixed word and the blanks after it. -/
def keyword (w : String) : Parser Unit :=
  token (word w.toList)

/-- Whether a character can begin a name. -/
def isNameStart (c : Char) : Bool :=
  c.isAlpha || c == '_'

/-- Whether a character can stand in a name. -/
def isNameChar (c : Char) : Bool :=
  isNameStart c || c.isDigit

/-- A name, without the blanks after it. -/
def bareName : Parser String := do
  let c ← satisfy isNameStart
  let cs ← takeMany isNameChar
  return String.ofList (c :: cs)

/-- A name. -/
def name : Parser String :=
  token bareName

/-! ## Literals -/

/-- The digits of a whole number: a zero alone, or digits that do not begin with zero. -/
def wholeDigits : Parser (List Char) :=
  (do let c ← satisfy (· == '0'); return [c]) <|> do
    let c ← satisfy fun c => c.isDigit && c != '0'
    let cs ← takeMany Char.isDigit
    return c :: cs

/-- Whether a minus stands here; reads it. -/
def minus : Parser Bool := do
  let sign ← optional (word ['-'])
  return sign.isSome

/-- A point and digits. -/
def fraction : Parser (List Char) := do
  word ['.']
  takeMany1 Char.isDigit

/-- An exponent: its sign and its digits. -/
def exponent : Parser (Bool × List Char) := do
  let _ ← satisfy fun c => c == 'e' || c == 'E'
  let sign ← optional (satisfy fun c => c == '+' || c == '-')
  let digits ← takeMany1 Char.isDigit
  return (sign == some '-', digits)

/-- A number, which no letter may follow. -/
def numeral : Parser Numeral := do
  let negative ← minus
  let whole ← wholeDigits
  let fraction ← optional fraction
  let exponent ← optional exponent
  notNext (satisfy isNameStart)
  return ⟨negative, whole, fraction, exponent⟩

/-- A reference to a variable. -/
def variableName : Parser String := do
  keyword "$"
  name

/-- A truth value. -/
def boolean : Parser Bool :=
  (do keyword "true"; return true) <|> do keyword "false"; return false

/-- A literal that holds no other. -/
def scalarLiteral : Parser Literal :=
  (do let t ← token numeral; return .number t.toNumber) <|>
  (do let s ← token stringLiteral; return .string s) <|>
  (do let b ← boolean; return .boolean b) <|>
  (do keyword "null"; return .null) <|>
  (do let n ← name; return .enum n)

/-- A name, a colon and what `p` reads. -/
def labelled {α : Type} (p : Parser α) : Parser (String × α) := do
  let n ← name
  keyword ":"
  let x ← p
  return (n, x)

/-- An object of fields as they are written: each name at its first position with its last value.
If there are numbers too large, it holds the fields with them and no others, so that none of these
is lost behind a later field of its name. -/
def objectLiteral (fields : List (String × Literal)) : Literal :=
  match fields.filter fun f => f.2.overflows with
  | [] => .object (Dict.ofList fields).entries
  | large => .object large

/-- A literal. In a constant one no variable may stand, at any depth. -/
def literal (constant : Bool) : Nat → Parser Literal
  | 0 => fail
  | depth + 1 =>
    (do if constant then fail else let n ← variableName; return .variable n) <|>
    scalarLiteral <|>
    (do
      keyword "["
      let items ← many (literal constant depth)
      keyword "]"
      return .list items) <|>
    do
      keyword "\x7b"
      let fields ← many (labelled (literal constant depth))
      keyword "\x7d"
      return objectLiteral fields

/-! ## Arguments, directives and variables -/

/-- Arguments in brackets. -/
def arguments (depth : Nat) : Parser (List (String × Literal)) := do
  keyword "("
  let args ← many1 (labelled (literal false depth))
  keyword ")"
  return args

/-- Arguments, if there are any. -/
def arguments? (depth : Nat) : Parser (List (String × Literal)) := do
  let args ← optional (arguments depth)
  return args.getD []

/-- A directive. -/
def directive (depth : Nat) : Parser Directive := do
  keyword "@"
  let n ← name
  let args ← arguments? depth
  return ⟨n, args⟩

/-- A type without blanks in it: a name or a type in brackets, and perhaps an exclamation mark. -/
def bareType : Nat → Parser Unit
  | 0 => fail
  | depth + 1 => do
    (do let _ ← bareName; return ()) <|> do
      word ['[']
      bareType depth
      word [']']
    let _ ← optional (word ['!'])
    return ()

/-- The definition of a variable. -/
def variableDefinition (depth : Nat) : Parser VariableDefinition := do
  let l ← here
  let n ← variableName
  keyword ":"
  token (bareType depth)
  let directives ← many (directive depth)
  let default? ← optional do
    keyword "="
    literal true depth
  return ⟨n, l, directives, default?⟩

/-- The definitions of variables in brackets. -/
def variableDefinitions (depth : Nat) : Parser (List VariableDefinition) := do
  keyword "("
  let defs ← many (variableDefinition depth)
  keyword ")"
  return defs

/-! ## Selections -/

/-- The condition of a fragment. Only blanks, and no comment, may follow its first word. -/
def typeCondition : Parser String := do
  word ['o', 'n']
  let _ ← takeMany1 isBlank
  name

/-- A field; `nested` reads a selection set. -/
def field (depth : Nat) (nested : Parser (List Selection)) : Parser Selection := do
  let l ← here
  let aliasName ← optional do
    let a ← name
    keyword ":"
    return a
  let n ← name
  let args ← arguments? depth
  let directives ← many (directive depth)
  let set ← optional nested
  return .field ⟨aliasName, n, l, args, directives⟩ (set.getD [])

/-- An inline fragment; `nested` reads a selection set. -/
def inlineFragment (depth : Nat) (nested : Parser (List Selection)) : Parser Selection := do
  let l ← here
  keyword "..."
  let condition ← optional typeCondition
  let directives ← many (directive depth)
  let set ← nested
  return .inline condition l directives set

/-- The use of a named fragment. -/
def fragmentSpread (depth : Nat) : Parser Selection := do
  let l ← here
  keyword "..."
  notNext typeCondition
  let n ← name
  let directives ← many (directive depth)
  return .spread n l directives

/-- A selection; `nested` reads a selection set. -/
def selection (depth : Nat) (nested : Parser (List Selection)) : Parser Selection :=
  field depth nested <|> inlineFragment depth nested <|> fragmentSpread depth

/-- A selection set. -/
def selectionSet : Nat → Parser (List Selection)
  | 0 => fail
  | depth + 1 => do
    keyword "\x7b"
    let set ← many1 (selection depth (selectionSet depth))
    keyword "\x7d"
    return set

/-! ## Definitions -/

/-- The word for a kind of operation. -/
def operationKind : Parser OperationKind :=
  (do keyword "query"; return .query) <|>
  (do keyword "mutation"; return .mutation) <|>
  (do keyword "subscription"; return .subscription)

/-- An operation that begins with its kind. -/
def operationDefinition (depth : Nat) : Parser Operation := do
  let l ← here
  let kind ← operationKind
  let n ← optional name
  let definitions ← optional (variableDefinitions depth)
  let directives ← many (directive depth)
  let set ← selectionSet depth
  return ⟨kind, n, l, definitions.getD [], directives, set⟩

/-- A query that is a selection set alone. -/
def shorthandQuery (depth : Nat) : Parser Operation := do
  let l ← here
  let set ← selectionSet depth
  return ⟨.query, none, l, [], [], set⟩

/-- The definition of a fragment. -/
def fragmentDefinition (depth : Nat) : Parser Fragment := do
  keyword "fragment"
  let n ← name
  let condition ← typeCondition
  let directives ← many (directive depth)
  let set ← selectionSet depth
  return ⟨n, condition, directives, set⟩

/-- A definition. -/
def definition (depth : Nat) : Parser Definition :=
  (do let op ← operationDefinition depth; return .operation op) <|>
  (do let op ← shorthandQuery depth; return .operation op) <|>
  (do let f ← fragmentDefinition depth; return .fragment f)

/-- A document: its definitions, and nothing after them. -/
def document : Parser (List Definition) := fun s =>
  (do
    blank
    let defs ← many1 (definition s.length)
    atEnd
    return defs : Parser (List Definition)) s

end MutationInput.Tree.Parser
