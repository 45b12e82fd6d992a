/-
EventWire.Ieee754 — binary floating point by bit pattern.

A `Format` fixes the widths of the exponent and fraction fields; `Binary f` is a bit pattern of
that format. Two patterns are equal only if all their bits are, so a NaN equals itself and the
two zeros differ.

Exact values need no exponents. Every finite number of a format is a whole number of `units`,
the least positive one being `2 ^ -scale`: `Binary.datum` reads a pattern as a sign and a count of
units. The patterns of one sign, taken as numbers, are in the order of their values, so rounding
a quotient is one division to an even neighbour on the right grid (`Format.roundMagnitude`), and
a carry out of the fraction lands on the next pattern by itself.

* `Binary.convert` — to another format, rounding to nearest and ties to even.
* `Binary.ofRatio`, `Binary.ofInt` — the nearest pattern to an exact quotient.
* `Binary.mul`, `Binary.div` — correctly rounded product and quotient.
* `Binary.truncate` — toward zero into a range of integers, whose ends stand for all beyond them.
-/
namespace EventWire.Ieee754

/-- A binary interchange format, by the widths of its two fields. -/
structure Format where
  exponentBits : Nat
  fractionBits : Nat
deriving DecidableEq

/-- Single precision. -/
abbrev Format.single : Format := ⟨8, 23⟩

/-- Double precision. -/
abbrev Format.double : Format := ⟨11, 52⟩

namespace Format

/-- Sign, exponent and fraction together. -/
abbrev width (f : Format) : Nat := 1 + f.exponentBits + f.fractionBits

/-- The least positive number of the format is `2 ^ -scale`. -/
def scale (f : Format) : Nat := (1 <<< (f.exponentBits - 1)) - 2 + f.fractionBits

/-- The unsigned pattern of infinity: all ones in the exponent, no fraction. -/
def infinity (f : Format) : Nat := ((1 <<< f.exponentBits) - 1) <<< f.fractionBits

/-- The unsigned pattern of the sign bit alone. -/
def signBit (f : Format) : Nat := 1 <<< (f.exponentBits + f.fractionBits)

/-- The top fraction bit, which marks a quiet NaN. -/
def quietBit (f : Format) : Nat := 1 <<< (f.fractionBits - 1)

/-- The number of units that an unsigned finite pattern stands for. Exponent field 0 has no
implicit leading bit and shares its grid with exponent field 1. -/
def units (f : Format) (magnitude : Nat) : Nat :=
  let leading := 1 <<< f.fractionBits
  let exponent := magnitude / leading
  let fraction := magnitude % leading
  if exponent = 0 then fraction else (leading + fraction) <<< (exponent - 1)

end Format

/-- The whole number nearest to `num / den`; a half goes to the even neighbour. -/
def roundHalfEven (num den : Nat) : Nat :=
  let whole := num / den
  let twice := 2 * (num % den)
  if den < twice ∨ (twice = den ∧ whole % 2 = 1) then whole + 1 else whole

/-- The unsigned pattern nearest to `num / den`, infinity standing for all that overflows. The
grid is the coarsest one that keeps every fraction bit, and never finer than one unit. -/
def Format.roundMagnitude (f : Format) (num den : Nat) : Nat :=
  let scaled := num <<< f.scale
  let shift := (scaled / den).log2 - f.fractionBits
  min f.infinity ((shift <<< f.fractionBits) + roundHalfEven scaled (den <<< shift))

/-- A bit pattern of the format `f`. -/
structure Binary (f : Format) where
  bits : BitVec f.width
deriving DecidableEq

/-- Single precision by bit pattern. -/
abbrev Binary32 := Binary .single

/-- Double precision by bit pattern. -/
abbrev Binary64 := Binary .double

/-- What a bit pattern stands for. -/
inductive Datum where
  /-- `units` times the least positive number of the format. -/
  | finite (negative : Bool) (units : Nat)
  | infinite (negative : Bool)
  /-- The fraction field tells NaNs apart. -/
  | nan (negative : Bool) (fraction : Nat)
deriving DecidableEq

namespace Binary

variable {f g : Format}

/-- The pattern with the given sign and unsigned part. -/
def ofParts (negative : Bool) (magnitude : Nat) : Binary f :=
  ⟨BitVec.ofNat _ ((if negative then f.signBit else 0) + magnitude)⟩

def isNegative (x : Binary f) : Bool := f.signBit ≤ x.bits.toNat

/-- The pattern without its sign bit. -/
def magnitude (x : Binary f) : Nat := x.bits.toNat % f.signBit

/-- What the pattern stands for. -/
def datum (x : Binary f) : Datum :=
  if x.magnitude < f.infinity then .finite x.isNegative (f.units x.magnitude)
  else if x.magnitude = f.infinity then .infinite x.isNegative
  else .nan x.isNegative (x.magnitude - f.infinity)

/-- The pattern nearest to `num / den` with the given sign. -/
def ofRatio (negative : Bool) (num den : Nat) : Binary f :=
  ofParts negative (f.roundMagnitude num den)

/-- The pattern nearest to an integer. -/
def ofInt (n : Int) : Binary f := ofRatio (decide (n < 0)) n.natAbs 1

/-- A fraction field moved to another format: its leading bits stay leading bits. -/
def moveFraction (f g : Format) (fraction : Nat) : Nat :=
  (fraction <<< g.fractionBits) >>> f.fractionBits

/-- The same number in another format, rounded to nearest where it does not fit. A NaN keeps its
sign and leading fraction bits and becomes quiet. -/
def convert (x : Binary f) : Binary g :=
  match x.datum with
  | .finite negative units => ofRatio negative units (1 <<< f.scale)
  | .infinite negative => ofParts negative g.infinity
  | .nan negative fraction =>
    ofParts negative (g.infinity + (moveFraction f g fraction ||| g.quietBit))

/-- The nearest integer toward zero, brought into the range from `low` to `high`: what lies
beyond an end becomes that end, and a NaN becomes 0. -/
def truncate (low high : Int) (x : Binary f) : Int :=
  match x.datum with
  | .finite negative units =>
    let whole : Int := (units >>> f.scale : Nat)
    max low (min high (if negative then -whole else whole))
  | .infinite negative => if negative then low else high
  | .nan .. => 0

/-- The units of a finite pattern; 0 for all others. -/
def finiteUnits (x : Binary f) : Nat :=
  match x.datum with
  | .finite _ units => units
  | _ => 0

/-- The nearest pattern to the product of two finite numbers. -/
def mul (x y : Binary f) : Binary f :=
  ofRatio (x.isNegative != y.isNegative) (x.finiteUnits * y.finiteUnits) (1 <<< (2 * f.scale))

/-- The nearest pattern to the quotient of two finite numbers, the second not zero. -/
def div (x y : Binary f) : Binary f :=
  ofRatio (x.isNegative != y.isNegative) x.finiteUnits y.finiteUnits

def isFinite (x : Binary f) : Bool := x.magnitude < f.infinity

/-- The other sign. -/
def neg (x : Binary f) : Binary f := ofParts (!x.isNegative) x.magnitude

end Binary

end EventWire.Ieee754
