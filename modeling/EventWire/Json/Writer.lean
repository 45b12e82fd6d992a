/-
EventWire.Json.Writer — documents as compact text.

Nothing is written between the parts of a document. In strings, quotes, backslashes and control
characters are escaped, the latter by their short form where they have one; all else stands for
itself.
-/
import EventWire.Json

namespace EventWire.Json

/-- The lower-case hexadecimal digit of a number below 16. -/
def hexDigit (n : Nat) : Char :=
  if n < 10 then .ofNat ('0'.toNat + n) else .ofNat ('a'.toNat + (n - 10))

/-- A character inside a string literal. -/
def escape (c : Char) : List Char :=
  if c = '"' then ['\\', '"']
  else if c = '\\' then ['\\', '\\']
  else if c = '\x08' then ['\\', 'b']
  else if c = '\t' then ['\\', 't']
  else if c = '\n' then ['\\', 'n']
  else if c = '\x0c' then ['\\', 'f']
  else if c = '\r' then ['\\', 'r']
  else if c.toNat < 0x20 then
    ['\\', 'u', '0', '0', hexDigit (c.toNat / 16), hexDigit (c.toNat % 16)]
  else [c]

/-- A string literal. One that denotes no text is written as half of a surrogate pair. -/
def writeLiteral : Literal → List Char
  | some s => '"' :: s.toList.flatMap escape ++ ['"']
  | none => ['"', '\\', 'u', 'd', '8', '0', '0', '"']

/-- A natural number in decimal digits. -/
def writeNat (n : Nat) : List Char := (Decimal.digits n).map Decimal.digitChar

/-- A power of ten after its mark. The sign is written in either direction. -/
def writePower (e : Int) : List Char :=
  'e' :: (if e < 0 then '-' else '+') :: writeNat e.natAbs

/-- A number, with a point only before digits. -/
def writeNumber (n : Number) : List Char :=
  let sign := if n.negative then ['-'] else []
  let point := if n.fraction.isEmpty then [] else '.' :: n.fraction.map Decimal.digitChar
  let power :=
    match n.exponent with
    | none => []
    | some e => writePower e
  sign ++ writeNat n.whole ++ point ++ power

mutual

/-- The text of a document. -/
def write : Json → List Char
  | null => ['n', 'u', 'l', 'l']
  | bool true => ['t', 'r', 'u', 'e']
  | bool false => ['f', 'a', 'l', 's', 'e']
  | number n => writeNumber n
  | string s => writeLiteral s
  | array items => '[' :: writeItems items ++ [']']
  | object members => '\x7b' :: writeMembers members ++ ['\x7d']

/-- Items with commas between them. -/
def writeItems : List Json → List Char
  | [] => []
  | [item] => write item
  | item :: items => write item ++ ',' :: writeItems items

/-- Members with commas between them. -/
def writeMembers : List (Literal × Json) → List Char
  | [] => []
  | [(name, value)] => writeLiteral name ++ ':' :: write value
  | (name, value) :: members =>
    writeLiteral name ++ ':' :: write value ++ ',' :: writeMembers members

end

/-- The compact text of a document. -/
def render (document : Json) : String := String.ofList document.write

end EventWire.Json
