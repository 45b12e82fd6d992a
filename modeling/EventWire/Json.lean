/-
EventWire.Json — documents as trees.

A tree keeps what a document says and nothing of how it is laid out. Numbers keep their decimal
digits, since whether a number is an integer and which float it denotes is decided by its reader. A
string literal may name half of a surrogate pair, which no text has: it is well-formed, but it
denotes no text.
-/
import EventWire.Decimal.Digits

namespace EventWire

/-- A number as it is written: sign, digits before the point, digits after it, power of ten. -/
structure Json.Number where
  negative : Bool
  whole : Nat
  fraction : List Decimal.Digit := []
  exponent : Option Int := none
deriving DecidableEq

/-- What a string literal denotes: a text, or none if it names half of a surrogate pair. -/
abbrev Json.Literal := Option String

/-- A document. -/
inductive Json where
  | null
  | bool (b : Bool)
  | number (n : Json.Number)
  | string (s : Json.Literal)
  | array (items : List Json)
  /-- Members in order; a name may come more than once. -/
  | object (members : List (Json.Literal × Json))

namespace Json

/-- A document that is a text. -/
def text (s : String) : Json := string (some s)

/-- A document that is an integer. -/
def int (n : Int) : Json := number { negative := n < 0, whole := n.natAbs }

/-- An object with the given names. -/
def record (members : List (String × Json)) : Json :=
  object (members.map fun (name, value) => (some name, value))

/-- The integer that a number is, if it is written as one. Zero has no sign. -/
def Number.toInt? (n : Number) : Option Int :=
  if n.fraction.isEmpty ∧ n.exponent.isNone ∧ ¬ (n.negative ∧ n.whole = 0) then
    some (if n.negative then -n.whole else n.whole)
  else none

end Json

end EventWire
