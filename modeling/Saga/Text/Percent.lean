/-!
# Percent coding of one URL segment

A byte of the UTF-8 form that is not unreserved is written as a percent sign and two hexadecimal
digits in upper case. Reading takes digits of either case; a percent sign without two digits after
it stands for itself, and bytes that are no UTF-8 text are refused.
-/

set_option autoImplicit false

namespace Saga.Text.Percent

/-- The bytes that stand for themselves: ASCII letters and digits, and four marks. -/
def isUnreserved (b : UInt8) : Bool :=
  let n := b.toNat
  (0x30 ≤ n && n ≤ 0x39) || (0x41 ≤ n && n ≤ 0x5A) || (0x61 ≤ n && n ≤ 0x7A) ||
    n == 0x2D || n == 0x2E || n == 0x5F || n == 0x7E

/-- A hexadecimal digit in upper case. -/
def hexDigit (n : Nat) : Char :=
  if n < 10 then Char.ofNat (0x30 + n) else Char.ofNat (0x37 + n)

def hexValue? (c : Char) : Option Nat :=
  let n := c.toNat
  if 0x30 ≤ n ∧ n ≤ 0x39 then some (n - 0x30)
  else if 0x41 ≤ n ∧ n ≤ 0x46 then some (n - 0x37)
  else if 0x61 ≤ n ∧ n ≤ 0x66 then some (n - 0x57)
  else none

def encodeByte (b : UInt8) : List Char :=
  if isUnreserved b then [Char.ofNat b.toNat]
  else ['%', hexDigit (b.toNat / 16), hexDigit (b.toNat % 16)]

def encodeBytes (bs : List UInt8) : List Char := bs.flatMap encodeByte

def encode (s : String) : List Char := encodeBytes s.toUTF8.data.toList

/-- The bytes that a segment stands for. -/
def decodeBytes : List Char → List UInt8
  | [] => []
  | '%' :: h :: l :: r =>
    match hexValue? h, hexValue? l with
    | some x, some y => UInt8.ofNat (16 * x + y) :: decodeBytes r
    | _, _ => String.utf8EncodeChar '%' ++ decodeBytes (h :: l :: r)
  | c :: r => String.utf8EncodeChar c ++ decodeBytes r

/-- The text that a segment stands for, if its bytes are UTF-8. -/
def decode? (l : List Char) : Option String := String.fromUTF8? ⟨(decodeBytes l).toArray⟩

end Saga.Text.Percent
