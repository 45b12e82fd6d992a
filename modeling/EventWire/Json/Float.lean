/-
EventWire.Json.Float — floating-point numbers in documents.

Finite numbers are written with the fewest digits that stand for them, positionally where the point
falls near the digits and with a power of ten elsewhere (`FloatStyle`): `0.5`, `1e+16`, `2.5e-7`.
NaNs and infinities are written as null, so they are not read back.

A number is read in two roundings: its leading digits become a double first, as many as fit 64 bits,
and then a power of ten multiplies or divides it. A result beyond the largest double is refused.
-/
import EventWire.Decimal.Shortest
import EventWire.Json

namespace EventWire.Json

open Ieee754 (Binary Binary32 Binary64)

/-! ## Writing -/

/-- Where positional writing ends. The point falls `place` digits after the first digit; it is
written there for `below < place ≤ above`. -/
structure FloatStyle where
  below : Int
  above : Int

/-- Doubles are positional from `0.00001` up to sixteen digits before the point. -/
def doubleStyle : FloatStyle := ⟨-5, 16⟩

/-- Singles are positional from `0.000001` up to thirteen digits before the point. -/
def singleStyle : FloatStyle := ⟨-6, 13⟩

/-- A decimal as it is written. -/
def Number.ofDecimal (style : FloatStyle) (negative : Bool) (d : Decimal) : Number :=
  let digits := Decimal.digits d.significand
  let place := digits.length + d.exponent
  if style.below < place ∧ place ≤ style.above then
    if 0 ≤ d.exponent then
      { negative, whole := d.significand * Nat.pow 10 d.exponent.toNat
        fraction := [Decimal.zero] }
    else
      let after := (-d.exponent).toNat
      { negative, whole := d.significand / Nat.pow 10 after
        fraction := Decimal.lastDigits after d.significand }
  else
    { negative, whole := Decimal.ofDigits (digits.take 1), fraction := digits.drop 1
      exponent := some (place - 1) }

/-- A floating-point number as a document. -/
def float {f : Ieee754.Format} (style : FloatStyle) (x : Binary f) : Json :=
  if x.isFinite then
    number <|
      if x.magnitude = 0 then { negative := x.isNegative, whole := 0, fraction := [Decimal.zero] }
      else .ofDecimal style x.isNegative (Decimal.shortest f x.magnitude)
  else null

/-! ## Reading -/

/-- The leading digits that, put after those of `n`, keep it within 64 bits, and the others. -/
def leadingDigits (n : Nat) : List Decimal.Digit → Nat × List Decimal.Digit
  | [] => (n, [])
  | d :: ds =>
    if n * 10 + d.val < UInt64.size then leadingDigits (n * 10 + d.val) ds else (n, d :: ds)

/-- The greatest power of ten that is a double. -/
def maxPower : Nat := 308

/-- The double nearest to a power of ten. -/
def tenTo (power : Nat) : Binary64 := .ofInt (Nat.pow 10 power)

/-- `x` over a power of ten, in steps that are doubles. -/
def scaleDown (x : Binary64) (power : Nat) : Binary64 :=
  if power ≤ maxPower then x.div (tenTo power)
  else if x.finiteUnits = 0 then x
  else scaleDown (x.div (tenTo maxPower)) (power - maxPower)
termination_by power
decreasing_by
  unfold maxPower at *
  omega

/-- `x` times a power of ten, if that is finite. -/
def scaleUp? (x : Binary64) (power : Nat) : Option Binary64 :=
  if power ≤ maxPower then
    let scaled := x.mul (tenTo power)
    if scaled.isFinite then some scaled else none
  else if x.finiteUnits = 0 then some x
  else none

/-- The double that a number is read as. Digits beyond those that fit 64 bits only move the point:
those before it by one place each, those after it not at all. -/
def Number.toDouble? (n : Number) : Option Binary64 := do
  let (leading, dropped) := leadingDigits 0 (Decimal.digits n.whole)
  let (significand, unused) := leadingDigits leading n.fraction
  let power : Int := dropped.length - (n.fraction.length - unused.length) + n.exponent.getD 0
  let unsigned : Binary64 := .ofInt significand
  let scaled ←
    if 0 ≤ power then scaleUp? unsigned power.toNat else some (scaleDown unsigned (-power).toNat)
  some (if n.negative then scaled.neg else scaled)

/-- Integers of 64 bits, signed or not, which are rounded but once. -/
def isWordSized (n : Int) : Bool := -0x8000000000000000 ≤ n && n ≤ 0xffffffffffffffff

/-- The single that a number is read as: an integer of 64 bits directly, all others by way of the
double, where what is too large becomes infinite. -/
def Number.toSingle? (n : Number) : Option Binary32 :=
  match n.toInt? with
  | some i => if isWordSized i then some (.ofInt i) else n.toDouble?.map (·.convert)
  | none => n.toDouble?.map (·.convert)

end EventWire.Json
