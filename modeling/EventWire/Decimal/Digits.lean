/-
EventWire.Decimal.Digits — natural numbers as decimal digits, most significant first.
-/
namespace EventWire.Decimal

/-- A decimal digit. -/
abbrev Digit := Fin 10

/-- The digit of nothing. -/
def zero : Digit := Fin.ofNat 10 0

/-- The character of a digit. -/
def digitChar (d : Digit) : Char := .ofNat ('0'.toNat + d.val)

/-- The digit that a character is. -/
def digit? (c : Char) : Option Digit :=
  if c.isDigit then some (Fin.ofNat 10 (c.toNat - '0'.toNat)) else none

/-- The digits before the first character that is none, and what is left. -/
def spanDigits : List Char → List Digit × List Char
  | [] => ([], [])
  | c :: cs =>
    match digit? c with
    | some d => (d :: (spanDigits cs).1, (spanDigits cs).2)
    | none => ([], c :: cs)

/-- The digits of `n`; zero has one. -/
def digits (n : Nat) : List Digit :=
  if n < 10 then [Fin.ofNat 10 n] else digits (n / 10) ++ [Fin.ofNat 10 n]

/-- The last `count` digits of `n`, with zeros in front where it has fewer. -/
def lastDigits : Nat → Nat → List Digit
  | 0, _ => []
  | count + 1, n => lastDigits count (n / 10) ++ [Fin.ofNat 10 n]

/-- The number with the given digits. -/
def ofDigits (ds : List Digit) : Nat := ds.foldl (fun n d => n * 10 + d.val) 0

end EventWire.Decimal
