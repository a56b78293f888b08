import MutationInput.Text.Quoted

/-!
# Texts without control sequences

A terminal takes some control characters for orders. Where a text is written to one, the escape
character, the bell, the backspace, the form feed and the deletion are written by two hexadecimal
digits and the controls beyond ASCII by their number, so that nothing is left to obey. Tabs and the
ends of lines stand for themselves.
-/
namespace MutationInput.Text

/-- Whether a terminal takes an ASCII character for an order. -/
def isOrder (c : Char) : Bool :=
  ['\x07', '\x08', '\x0c', '\x1b', '\x7f'].contains c

/-- How one character is written on a terminal. -/
def visibleChar (c : Char) : List Char :=
  if isOrder c then
    ['\\', 'x', Nat.digitChar (c.toNat / 16), Nat.digitChar (c.toNat % 16)]
  else if 0x80 ≤ c.toNat ∧ c.toNat ≤ 0x9F then
    ['\\', 'u', '\x7b'] ++ hexDigits c.toNat ++ ['\x7d']
  else [c]

/-- A text as it is written on a terminal. -/
def visible (s : String) : String :=
  String.ofList (s.toList.flatMap visibleChar)

end MutationInput.Text
