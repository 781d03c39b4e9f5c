import Saga.Text.Printable

/-!
# Quoted text

How a text is shown between quotes when a value is inspected: a backslash before a quote and
before a backslash, short forms for the four commonest controls, the code point in hexadecimal for
every character that cannot be shown, and all else as it is.
-/

set_option autoImplicit false

namespace Saga.Text.Quoted

/-- The code point of a character between braces, in lower-case hexadecimal. -/
def codePoint (c : Char) : List Char :=
  ['\\', 'u', '\x7b'] ++ Nat.toDigits 16 c.toNat ++ ['\x7d']

/-- One character inside quotes. -/
def escape (c : Char) : List Char :=
  if c = '\x00' then ['\\', '0']
  else if c = '\t' then ['\\', 't']
  else if c = '\r' then ['\\', 'r']
  else if c = '\n' then ['\\', 'n']
  else if c = '\\' then ['\\', '\\']
  else if c = '"' then ['\\', '"']
  else if isHidden c then codePoint c
  else [c]

def quote (s : String) : String :=
  String.ofList ('"' :: s.toList.flatMap escape ++ ['"'])

end Saga.Text.Quoted
