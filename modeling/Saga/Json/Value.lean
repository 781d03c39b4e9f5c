/-!
# Encoded data

JSON text as a value that keeps what a decoder may have to look at: the fields of an object in
their order and with repetitions, and for a number only whether it is a natural number written
with digits alone. A text with an escape for half a surrogate pair is kept as one that nobody can
use, since data that nobody looks at may hold it. `Json.read?` is the reader.
-/

set_option autoImplicit false

namespace Saga

/-- A JSON value. -/
inductive Json where
  | null
  | bool (value : Bool)
  /-- The natural number, if it is one and is written without sign, fraction and exponent. -/
  | number (natural : Option Nat)
  /-- The text, if it is one. -/
  | text (value : Option String)
  | array (items : List Json)
  | object (fields : List (Option String × Json))

namespace Json

/-! ## Reading -/

def isSpace (c : Char) : Bool := c == ' ' || c == '\n' || c == '\t' || c == '\r'

def skip (l : List Char) : List Char := l.dropWhile isSpace

def word (start : List Char) (l : List Char) : Option (List Char) :=
  match start, l with
  | [], l => some l
  | a :: start, c :: l => if a = c then word start l else none
  | _ :: _, [] => none

def hexValue? (c : Char) : Option Nat :=
  let n := c.toNat
  if 0x30 ≤ n ∧ n ≤ 0x39 then some (n - 0x30)
  else if 0x41 ≤ n ∧ n ≤ 0x46 then some (n - 0x37)
  else if 0x61 ≤ n ∧ n ≤ 0x66 then some (n - 0x57)
  else none

/-- Reads four hexadecimal digits. -/
def hexUnit? : List Char → Option (Nat × List Char)
  | a :: b :: c :: d :: l =>
    match hexValue? a, hexValue? b, hexValue? c, hexValue? d with
    | some a, some b, some c, some d => some (4096 * a + 256 * b + 16 * c + d, l)
    | _, _, _, _ => none
  | _ => none

/-- What an escape with a code stands for: the character, or nothing for half a pair, and the rest.
The first half of a pair takes the second with it. -/
def codeEscape? (l : List Char) : Option (Option Char × List Char) :=
  match hexUnit? l with
  | none => none
  | some (n, l) =>
    if 0xDC00 ≤ n ∧ n ≤ 0xDFFF then some (none, l)
    else if 0xD800 ≤ n ∧ n ≤ 0xDBFF then
      match l with
      | '\\' :: 'u' :: l' =>
        match hexUnit? l' with
        | some (m, l'') =>
          if 0xDC00 ≤ m ∧ m ≤ 0xDFFF then
            some (some (Char.ofNat (0x10000 + (n - 0xD800) * 1024 + (m - 0xDC00))), l'')
          else some (none, l)
        | none => none
      | _ => some (none, l)
    else some (some (Char.ofNat n), l)

/-- The character of a one-letter escape. -/
def letterEscape? : Char → Option Char
  | '"' => some '"'
  | '\\' => some '\\'
  | '/' => some '/'
  | 'b' => some '\x08'
  | 'f' => some '\x0c'
  | 'n' => some '\n'
  | 'r' => some '\r'
  | 't' => some '\t'
  | _ => none

/-- Reads the rest of a text, up to the closing quote; `done` is what came before, reversed, or
nothing once half a pair was met. -/
def textRest : Nat → Option (List Char) → List Char → Option (Option String × List Char)
  | 0, _, _ => none
  | _ + 1, _, [] => none
  | fuel + 1, done, c :: l =>
    if c = '"' then some (done.map fun cs => String.ofList cs.reverse, l)
    else if c = '\\' then
      match l with
      | 'u' :: l =>
        match codeEscape? l with
        | some (some c, l) => textRest fuel (done.map (c :: ·)) l
        | some (none, l) => textRest fuel none l
        | none => none
      | e :: l =>
        match letterEscape? e with
        | some c => textRest fuel (done.map (c :: ·)) l
        | none => none
      | [] => none
    else if c.toNat < 0x20 then none
    else textRest fuel (done.map (c :: ·)) l

def digitsValue (ds : List Char) : Nat := ds.foldl (fun n d => 10 * n + (d.toNat - 0x30)) 0

/-- Reads at least one digit. -/
def digits? (l : List Char) : Option (List Char × List Char) :=
  match l.takeWhile Char.isDigit with
  | [] => none
  | ds => some (ds, l.dropWhile Char.isDigit)

/-- Reads an exponent, if there is one; tells whether there was. -/
def exponent? : List Char → Option (Bool × List Char)
  | c :: l =>
    if c = 'e' ∨ c = 'E' then
      match l with
      | '+' :: l | '-' :: l => (digits? l).map fun r => (true, r.2)
      | l => (digits? l).map fun r => (true, r.2)
    else some (false, c :: l)
  | [] => some (false, [])

/-- Reads a fraction, if there is one; tells whether there was. -/
def fraction? : List Char → Option (Bool × List Char)
  | '.' :: l => (digits? l).map fun r => (true, r.2)
  | l => some (false, l)

def number? (l : List Char) : Option (Json × List Char) :=
  let negative := l.head? == some '-'
  match digits? (if negative then l.tail else l) with
  | none => none
  | some (ds, l) =>
    if ds.head? = some '0' ∧ ds ≠ ['0'] then none
    else
      match fraction? l with
      | none => none
      | some (hasFraction, l) =>
        match exponent? l with
        | none => none
        | some (hasExponent, l) =>
          some (number (if negative || hasFraction || hasExponent then none
            else some (digitsValue ds)), l)

mutual
def value : Nat → List Char → Option (Json × List Char)
  | 0, _ => none
  | fuel + 1, l =>
    match skip l with
    | '"' :: l => (textRest (l.length + 1) (some []) l).map fun r => (text r.1, r.2)
    | '[' :: l =>
      match skip l with
      | ']' :: l => some (array [], l)
      | l => (items fuel l).map fun r => (array r.1, r.2)
    | '\x7b' :: l =>
      match skip l with
      | '\x7d' :: l => some (object [], l)
      | l => (members fuel l).map fun r => (object r.1, r.2)
    | 'n' :: l => (word "ull".toList l).map (null, ·)
    | 't' :: l => (word "rue".toList l).map (bool true, ·)
    | 'f' :: l => (word "alse".toList l).map (bool false, ·)
    | l => number? l
/-- Reads the items of an array, of which there is one at least, and its end. -/
def items : Nat → List Char → Option (List Json × List Char)
  | 0, _ => none
  | fuel + 1, l =>
    match value fuel l with
    | none => none
    | some (item, l) =>
      match skip l with
      | ',' :: l => (items fuel l).map fun r => (item :: r.1, r.2)
      | ']' :: l => some ([item], l)
      | _ => none
/-- Reads the fields of an object, of which there is one at least, and its end. -/
def members : Nat → List Char → Option (List (Option String × Json) × List Char)
  | 0, _ => none
  | fuel + 1, l =>
    match skip l with
    | '"' :: l =>
      match textRest (l.length + 1) (some []) l with
      | none => none
      | some (key, l) =>
        match skip l with
        | ':' :: l =>
          match value fuel l with
          | none => none
          | some (item, l) =>
            match skip l with
            | ',' :: l => (members fuel l).map fun r => ((key, item) :: r.1, r.2)
            | '\x7d' :: l => some ([(key, item)], l)
            | _ => none
        | _ => none
    | _ => none
end

/-- The value that a text holds, if it holds one and nothing else. Reading an item takes two steps
of fuel at most for each character. -/
def read? (s : String) : Option Json :=
  match value (2 * s.length + 2) s.toList with
  | some (v, l) => if (skip l).isEmpty then some v else none
  | none => none

end Json

end Saga
