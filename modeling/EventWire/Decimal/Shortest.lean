/-
EventWire.Decimal.Shortest — the shortest decimal that stands for a binary floating-point number.

A decimal stands for a number if it lies nearer to it than to the numbers on either side; the point
half-way between two belongs to the one with the even bit pattern. Of all such decimals, those with
the fewest digits are taken, and of these the nearest; of two that are equally near, the one with an
even last digit.

All of it is arithmetic on natural numbers: a finite number of a format is a whole multiple of
`2 ^ -scale`, hence one of `10 ^ -scale` (`exact`). The search goes from coarse decimal grids to
fine ones and tests, on each, the two points next to the number.
-/
import EventWire.Decimal.Digits
import EventWire.Ieee754

namespace EventWire

/-- The number `significand * 10 ^ exponent`. -/
structure Decimal where
  significand : Nat
  exponent : Int
deriving DecidableEq

namespace Decimal

open Ieee754 (Format)

/-- The finite number with the given unsigned pattern, in units of `10 ^ -scale`. -/
def exact (f : Format) (magnitude : Nat) : Nat := f.units magnitude * Nat.pow 5 f.scale

/-- Whether `point`, in units of `10 ^ -scale`, stands for the number with a given pattern. -/
def standsFor (f : Format) (magnitude point : Nat) : Bool :=
  let low := exact f (magnitude - 1) + exact f magnitude
  let high := exact f magnitude + exact f (magnitude + 1)
  if magnitude % 2 = 0 then low ≤ 2 * point && 2 * point ≤ high
  else low < 2 * point && 2 * point < high

/-- The better of the two multiples of `10 ^ place` next to a number, as a count of that power, if
one of them stands for the number. -/
def nextTo? (f : Format) (magnitude place : Nat) : Option Nat :=
  let step := Nat.pow 10 place
  let value := exact f magnitude
  let below := value / step
  let above := below + 1
  match standsFor f magnitude (below * step), standsFor f magnitude (above * step) with
  | true, true =>
    let toBelow := value - below * step
    let toAbove := above * step - value
    some (if toBelow < toAbove ∨ (toBelow = toAbove ∧ below % 2 = 0) then below else above)
  | true, false => some below
  | false, true => some above
  | false, false => none

/-- The first grid from `10 ^ place` downwards that has a point for the number. -/
def search (f : Format) (magnitude : Nat) : Nat → Nat × Nat
  | 0 => (exact f magnitude, 0)
  | place + 1 =>
    match nextTo? f magnitude (place + 1) with
    | some count => (count, place + 1)
    | none => search f magnitude place

/-- The same number without zeros at the end of its digits. -/
def trim (significand : Nat) (exponent : Int) : Decimal :=
  if _h : significand ≠ 0 ∧ significand % 10 = 0 then trim (significand / 10) (exponent + 1)
  else ⟨significand, exponent⟩
termination_by significand
decreasing_by omega

/-- The shortest decimal for the finite number with the given unsigned pattern, which is not
zero. -/
def shortest (f : Format) (magnitude : Nat) : Decimal :=
  let (count, place) := search f magnitude ((Decimal.digits (exact f magnitude)).length - 1)
  trim count (place - f.scale)

end Decimal

end EventWire
