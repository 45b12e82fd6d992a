/-
EventWire.Proofs.ExactValue — the numbers that bit patterns stand for, and what
conversions make of them.

Numbers are computed with as counts of units. What they are is said here without
units, by the three fields of a pattern and in rational numbers
(`Ieee754.Binary.quantity`); that the units count the same is
`Ieee754.Binary.quantity_eq`. On this rest:

* `Binary.truncate_eq_saturate` — to truncate a pattern is to truncate its number
  toward zero and to bring it into range (`Quantity.saturate`);
* `Binary.quantity_ofInt`, `Binary.quantity_convert` — a whole number that the
  fraction holds, and a number of a narrower format, are kept as they are.

The latter two hold because rounding leaves alone what has a pattern. A pattern
either is not shifted or fills its fraction, so the grid to which a short
significand is rounded is never coarser than its own (`Format.exists_normal`), and
the division by which it is rounded has no remainder
(`Format.roundMagnitude_of_exact`).

So an integer, whatever scalar it is made of, is the truncated value of that
scalar, brought into range (`Scalar.integer?_convert`): the way through double
precision leaves no trace.
-/
import EventWire.Scalar
import Mathlib

namespace EventWire.Ieee754

/-! ## Exact rounding -/

theorem roundHalfEven_mul {den : Nat} (h : 0 < den) (n : Nat) :
    roundHalfEven (n * den) den = n := by
  have hwhole : n * den / den = n := Nat.mul_div_cancel n h
  have hrest : n * den % den = 0 := Nat.mul_mod_left n den
  simp only [roundHalfEven, hwhole, hrest]
  rw [if_neg (by omega)]

namespace Format

variable {f : Format}

theorem infinity_eq (f : Format) :
    f.infinity = (2 ^ f.exponentBits - 1) * 2 ^ f.fractionBits := by
  simp [infinity, Nat.shiftLeft_eq]

theorem signBit_eq (f : Format) : f.signBit = 2 ^ f.exponentBits * 2 ^ f.fractionBits := by
  simp [signBit, Nat.shiftLeft_eq, pow_add]

theorem signBit_pos (f : Format) : 0 < f.signBit := by
  rw [signBit_eq]
  positivity

/-- Between infinity and the sign bit lie the NaNs. -/
theorem infinity_add (f : Format) : f.infinity + 2 ^ f.fractionBits = f.signBit := by
  have hpos := Nat.two_pow_pos f.exponentBits
  rw [infinity_eq, signBit_eq, ← Nat.succ_mul]
  congr 1
  omega

theorem infinity_lt_signBit (f : Format) : f.infinity < f.signBit := by
  have := f.infinity_add
  have := Nat.two_pow_pos f.fractionBits
  omega

theorem two_pow_width (f : Format) : 2 ^ f.width = 2 * f.signBit := by
  rw [signBit_eq, ← pow_add, width, Nat.add_assoc, pow_add, pow_one]

/-- A short significand, shifted, is one that is not shifted at all or fills
the fraction. -/
theorem exists_normal {width significand : Nat} (h : significand < 2 ^ (width + 1)) (shift : Nat) :
    ∃ normal exponent, significand * 2 ^ shift = normal * 2 ^ exponent ∧
      (significand * 2 ^ shift).log2 - width = exponent ∧ exponent ≤ shift ∧
      normal < 2 ^ (width + 1) ∧ (exponent = 0 ∨ 2 ^ width ≤ normal) := by
  rcases Nat.eq_zero_or_pos significand with rfl | hpos
  · exact ⟨0, 0, by simp, by simp, Nat.zero_le _, Nat.two_pow_pos _, .inl rfl⟩
  have hne : significand ≠ 0 := Nat.ne_of_gt hpos
  have hlow : 2 ^ significand.log2 ≤ significand := Nat.log2_self_le hne
  have hhigh : significand < 2 ^ (significand.log2 + 1) := Nat.lt_log2_self
  have hshort : significand.log2 < width + 1 := (Nat.log2_lt hne).mpr h
  have hlog : (significand * 2 ^ shift).log2 = significand.log2 + shift := by
    refine (Nat.log2_eq_iff (by positivity)).mpr ⟨?_, ?_⟩
    · rw [pow_add]
      exact Nat.mul_le_mul_right _ hlow
    · rw [Nat.add_right_comm, pow_add]
      exact Nat.mul_lt_mul_of_pos_right hhigh (Nat.two_pow_pos shift)
  rw [hlog]
  rcases Nat.le_total (significand.log2 + shift) width with hfits | hlong
  · refine ⟨significand * 2 ^ shift, 0, by simp, Nat.sub_eq_zero_of_le hfits, Nat.zero_le _, ?_,
      .inl rfl⟩
    rw [← Nat.log2_lt (by positivity), hlog]
    omega
  · -- a part of the shift makes the significand fill the fraction
    obtain ⟨rest, hrest⟩ : ∃ rest, width = significand.log2 + rest :=
      ⟨width - significand.log2, by omega⟩
    refine ⟨significand * 2 ^ rest, shift - rest, ?_, by omega, by omega, ?_, .inr ?_⟩
    · rw [Nat.mul_assoc, ← pow_add]
      congr 2
      omega
    · rw [hrest, Nat.add_right_comm, pow_add]
      exact Nat.mul_lt_mul_of_pos_right hhigh (Nat.two_pow_pos rest)
    · rw [hrest, pow_add]
      exact Nat.mul_le_mul_right _ hlow

/-- The pattern of a significand on its grid stands for it. -/
theorem units_pattern {normal exponent : Nat} (h : normal < 2 ^ (f.fractionBits + 1))
    (hnormal : exponent = 0 ∨ 2 ^ f.fractionBits ≤ normal) :
    f.units (exponent * 2 ^ f.fractionBits + normal) = normal * 2 ^ exponent := by
  have hpos := Nat.two_pow_pos f.fractionBits
  rw [pow_succ] at h
  simp only [units, Nat.shiftLeft_eq, Nat.one_mul]
  rcases Nat.lt_or_ge normal (2 ^ f.fractionBits) with hsmall | hlarge
  · obtain rfl : exponent = 0 := hnormal.resolve_right (by omega)
    simp [Nat.div_eq_of_lt hsmall, Nat.mod_eq_of_lt hsmall]
  · -- the leading bit carries into the exponent field
    obtain ⟨fraction, rfl⟩ := Nat.exists_eq_add_of_le hlarge
    have hfraction : fraction < 2 ^ f.fractionBits := by omega
    have hpattern : exponent * 2 ^ f.fractionBits + (2 ^ f.fractionBits + fraction) =
        fraction + (exponent + 1) * 2 ^ f.fractionBits := by ring
    rw [hpattern, Nat.add_mul_div_right _ _ hpos, Nat.add_mul_mod_self_right,
      Nat.div_eq_of_lt hfraction, Nat.mod_eq_of_lt hfraction]
    simp

/-- **What has a pattern is met exactly**: a quotient that is a short
significand of units, shifted by no more than the format allows. -/
theorem roundMagnitude_of_exact {num den significand shift : Nat} (hden : 0 < den)
    (hshort : significand < 2 ^ (f.fractionBits + 1)) (hshift : shift + 2 < 2 ^ f.exponentBits)
    (hexact : num <<< f.scale = significand * 2 ^ shift * den) :
    f.roundMagnitude num den < f.infinity ∧
      f.units (f.roundMagnitude num den) = significand * 2 ^ shift := by
  obtain ⟨normal, exponent, heq, hexponent, hle, hwidth, hnormal⟩ := exists_normal hshort shift
  have hpattern : exponent * 2 ^ f.fractionBits + normal < f.infinity := by
    have hroom : (exponent + 2) * 2 ^ f.fractionBits ≤ f.infinity := by
      rw [infinity_eq]
      exact Nat.mul_le_mul_right _ (by omega)
    rw [pow_succ] at hwidth
    rw [Nat.add_mul] at hroom
    omega
  have hround : f.roundMagnitude num den = exponent * 2 ^ f.fractionBits + normal := by
    have hdiv : num <<< f.scale / den = significand * 2 ^ shift := by
      rw [hexact, Nat.mul_div_cancel _ hden]
    have hgrid : num <<< f.scale = normal * (den * 2 ^ exponent) := by
      rw [hexact, heq]
      ring
    simp only [roundMagnitude, hdiv, hexponent, Nat.shiftLeft_eq _ exponent]
    rw [hgrid, roundHalfEven_mul (by positivity), Nat.shiftLeft_eq]
    omega
  rw [hround]
  exact ⟨hpattern, by rw [units_pattern hwidth hnormal, heq]⟩

end Format

/-! ## Patterns by their parts -/

namespace Binary

variable {f : Format}

theorem toNat_ofParts (negative : Bool) {magnitude : Nat} (h : magnitude < f.signBit) :
    (ofParts negative magnitude : Binary f).bits.toNat =
      (if negative then f.signBit else 0) + magnitude := by
  rw [ofParts, BitVec.toNat_ofNat, Nat.mod_eq_of_lt]
  rw [f.two_pow_width]
  split <;> omega

theorem magnitude_ofParts (negative : Bool) {magnitude : Nat} (h : magnitude < f.signBit) :
    (ofParts negative magnitude : Binary f).magnitude = magnitude := by
  rw [Binary.magnitude, toNat_ofParts negative h]
  split
  · rw [Nat.add_mod_left, Nat.mod_eq_of_lt h]
  · rw [Nat.zero_add, Nat.mod_eq_of_lt h]

theorem isNegative_ofParts (negative : Bool) {magnitude : Nat} (h : magnitude < f.signBit) :
    (ofParts negative magnitude : Binary f).isNegative = negative := by
  rw [isNegative, toNat_ofParts negative h]
  cases negative <;> simp [h]

theorem datum_of_finite (negative : Bool) {magnitude : Nat} (h : magnitude < f.infinity) :
    (ofParts negative magnitude : Binary f).datum = .finite negative (f.units magnitude) := by
  have hlt : magnitude < f.signBit := h.trans f.infinity_lt_signBit
  rw [datum, magnitude_ofParts negative hlt, isNegative_ofParts negative hlt, if_pos h]

theorem datum_infinity (negative : Bool) :
    (ofParts negative f.infinity : Binary f).datum = .infinite negative := by
  rw [datum, magnitude_ofParts negative f.infinity_lt_signBit,
    isNegative_ofParts negative f.infinity_lt_signBit, if_neg (Nat.lt_irrefl _), if_pos rfl]

theorem datum_of_nan (negative : Bool) {fraction : Nat} (hpos : 0 < fraction)
    (h : fraction < 2 ^ f.fractionBits) :
    (ofParts negative (f.infinity + fraction) : Binary f).datum = .nan negative fraction := by
  have hlt : f.infinity + fraction < f.signBit := by
    rw [← f.infinity_add]
    omega
  rw [datum, magnitude_ofParts negative hlt, isNegative_ofParts negative hlt, if_neg (by omega),
    if_neg (by omega), Nat.add_sub_cancel_left]

theorem datum_cases (x : Binary f) :
    (x.magnitude < f.infinity ∧ x.datum = .finite x.isNegative (f.units x.magnitude)) ∨
      x.datum = .infinite x.isNegative ∨
      ∃ fraction < 2 ^ f.fractionBits, x.datum = .nan x.isNegative fraction := by
  unfold datum
  split
  · rename_i hfinite
    exact .inl ⟨hfinite, rfl⟩
  · split
    · exact .inr (.inl rfl)
    · have hmagnitude : x.magnitude < f.signBit := Nat.mod_lt _ f.signBit_pos
      rw [← f.infinity_add] at hmagnitude
      exact .inr (.inr ⟨_, by omega, rfl⟩)

end Binary

/-! ## Exact values -/

/-- What a number is, exactly. -/
inductive Quantity where
  | rational (q : ℚ)
  | infinite (negative : Bool)
  | nan

/-- The number that is taken off the exponent field. -/
def Format.bias (f : Format) : ℤ := 2 ^ (f.exponentBits - 1) - 1

/-- What a datum is, by the count of its units. -/
def Datum.quantity (f : Format) : Datum → Quantity
  | .finite negative units => .rational ((if negative then -1 else 1) * (units / 2 ^ f.scale))
  | .infinite negative => .infinite negative
  | .nan .. => .nan

namespace Binary

variable {f : Format}

def exponentField (x : Binary f) : Nat := x.bits.toNat / 2 ^ f.fractionBits % 2 ^ f.exponentBits

def fractionField (x : Binary f) : Nat := x.bits.toNat % 2 ^ f.fractionBits

/-- What a bit pattern stands for, by its fields: the fraction follows a leading
1, or a leading 0 if the exponent is the least, and the greatest exponent is for
what is no number. -/
def quantity (x : Binary f) : Quantity :=
  let sign : ℚ := if x.bits.msb then -1 else 1
  let fraction : ℚ := x.fractionField / 2 ^ f.fractionBits
  if x.exponentField = 2 ^ f.exponentBits - 1 then
    if x.fractionField = 0 then .infinite x.bits.msb else .nan
  else if x.exponentField = 0 then .rational (sign * fraction * 2 ^ (1 - f.bias))
  else .rational (sign * (1 + fraction) * 2 ^ (x.exponentField - f.bias))

theorem isNegative_eq_msb (x : Binary f) : x.isNegative = x.bits.msb := by
  rw [BitVec.msb_eq_decide, isNegative, Format.signBit, Nat.one_shiftLeft]
  congr 3
  simp only [Format.width]
  omega

theorem magnitude_eq (x : Binary f) :
    x.magnitude = x.exponentField * 2 ^ f.fractionBits + x.fractionField := by
  rw [magnitude, f.signBit_eq, Nat.mul_comm (2 ^ f.exponentBits), Nat.mod_mul, exponentField,
    fractionField]
  ring

theorem fractionField_lt (x : Binary f) : x.fractionField < 2 ^ f.fractionBits :=
  Nat.mod_lt _ (Nat.two_pow_pos _)

theorem exponentField_lt (x : Binary f) : x.exponentField < 2 ^ f.exponentBits :=
  Nat.mod_lt _ (Nat.two_pow_pos _)

theorem units_magnitude (x : Binary f) :
    f.units x.magnitude =
      if x.exponentField = 0 then x.fractionField
      else (2 ^ f.fractionBits + x.fractionField) * 2 ^ (x.exponentField - 1) := by
  have hpos := Nat.two_pow_pos f.fractionBits
  have hfraction := x.fractionField_lt
  have hpattern : x.magnitude = x.fractionField + x.exponentField * 2 ^ f.fractionBits := by
    rw [magnitude_eq, Nat.add_comm]
  simp only [Format.units, Nat.shiftLeft_eq, Nat.one_mul]
  rw [hpattern, Nat.add_mul_div_right _ _ hpos, Nat.add_mul_mod_self_right,
    Nat.div_eq_of_lt hfraction, Nat.mod_eq_of_lt hfraction, Nat.zero_add]

theorem magnitude_lt_infinity_iff (x : Binary f) :
    x.magnitude < f.infinity ↔ x.exponentField ≠ 2 ^ f.exponentBits - 1 := by
  have hpos := Nat.two_pow_pos f.fractionBits
  have hfraction := x.fractionField_lt
  have hexponent := x.exponentField_lt
  rw [magnitude_eq, f.infinity_eq]
  constructor
  · intro h heq
    rw [heq] at h
    omega
  · intro hne
    have hbelow : (x.exponentField + 1) * 2 ^ f.fractionBits ≤
        (2 ^ f.exponentBits - 1) * 2 ^ f.fractionBits := Nat.mul_le_mul_right _ (by omega)
    rw [Nat.succ_mul] at hbelow
    omega

theorem two_pow_scale (h : 2 ≤ f.exponentBits) :
    (2 : ℚ) ^ f.scale = 2 ^ f.fractionBits * 2 ^ (f.bias - 1) := by
  have hle : 2 ≤ 2 ^ (f.exponentBits - 1) := Nat.le_self_pow (by omega) 2
  have hscale : (f.scale : ℤ) = f.fractionBits + (f.bias - 1) := by
    rw [Format.scale, Format.bias, Nat.one_shiftLeft]
    push_cast [hle]
    ring
  rw [← zpow_natCast, ← zpow_natCast, hscale, zpow_add₀ two_ne_zero]

/-- **The units count what the fields say.** -/
theorem quantity_eq (h : 2 ≤ f.exponentBits) (x : Binary f) : x.quantity = x.datum.quantity f := by
  have hscale := two_pow_scale h
  have hinverse : (2 : ℚ) ^ (1 - f.bias) = (2 ^ (f.bias - 1))⁻¹ := by
    rw [← zpow_neg, neg_sub]
  rw [quantity, datum, isNegative_eq_msb]
  by_cases htop : x.exponentField = 2 ^ f.exponentBits - 1
  · have hmagnitude : x.magnitude = f.infinity + x.fractionField := by
      rw [magnitude_eq, htop, f.infinity_eq]
    have hlarge : ¬ x.magnitude < f.infinity := by omega
    have hinfinite : x.magnitude = f.infinity ↔ x.fractionField = 0 := by omega
    rw [if_pos htop, if_neg hlarge]
    by_cases hzero : x.fractionField = 0
    · rw [if_pos hzero, if_pos (hinfinite.mpr hzero), Datum.quantity]
    · rw [if_neg hzero, if_neg (hinfinite.not.mpr hzero), Datum.quantity]
  · rw [if_neg htop, if_pos (x.magnitude_lt_infinity_iff.mpr htop), Datum.quantity,
      units_magnitude, hscale]
    by_cases hzero : x.exponentField = 0
    · rw [if_pos hzero, if_pos hzero, hinverse]
      congr 1
      field_simp
    · have hshift : (2 : ℚ) ^ (x.exponentField - f.bias) =
          2 ^ (x.exponentField - 1) * (2 ^ (f.bias - 1))⁻¹ := by
        rw [← hinverse, ← zpow_natCast, ← zpow_add₀ two_ne_zero]
        congr 1
        omega
      rw [if_neg hzero, if_neg hzero, hshift]
      congr 1
      push_cast
      field_simp

end Binary

/-! ## Truncation -/

/-- The whole number next to `q` on the way to zero. -/
def truncated (q : ℚ) : ℤ := if q < 0 then ⌈q⌉ else ⌊q⌋

theorem truncated_neg (q : ℚ) : truncated (-q) = -truncated q := by
  unfold truncated
  rcases lt_trichotomy q 0 with hneg | rfl | hpos
  · rw [if_neg (by linarith), if_pos hneg, Int.floor_neg]
  · simp
  · rw [if_pos (by linarith), if_neg (by linarith), Int.ceil_neg]

theorem truncated_intCast (n : ℤ) : truncated n = n := by
  simp [truncated]

theorem truncated_div (units shift : Nat) :
    truncated (units / 2 ^ shift) = (units >>> shift : Nat) := by
  have hnonneg : ¬ (units / 2 ^ shift : ℚ) < 0 := not_lt.mpr (by positivity)
  rw [truncated, if_neg hnonneg, Nat.shiftRight_eq_div_pow]
  exact_mod_cast Rat.floor_natCast_div_natCast units (2 ^ shift)

namespace Quantity

/-- The integer from `low` to `high` that stands for a number: it is truncated
toward zero, and what lies beyond an end becomes that end. -/
def saturate (low high : ℤ) : Quantity → ℤ
  | rational q => max low (min high (truncated q))
  | infinite negative => if negative then low else high
  | nan => 0

variable {low high : ℤ}

/-- An integer of the range stands for itself. -/
theorem saturate_of_mem {n : ℤ} (hlow : low ≤ n) (hhigh : n ≤ high) :
    saturate low high (.rational n) = n := by
  rw [saturate, truncated_intCast, min_eq_right hhigh, max_eq_right hlow]

theorem saturate_mem (hlow : low ≤ 0) (hhigh : 0 ≤ high) (quantity : Quantity) :
    low ≤ quantity.saturate low high ∧ quantity.saturate low high ≤ high := by
  have hle : low ≤ high := hlow.trans hhigh
  cases quantity with
  | rational q => exact ⟨le_max_left .., max_le hle (min_le_left ..)⟩
  | infinite negative => cases negative <;> simp [saturate, hle]
  | nan => exact ⟨hlow, hhigh⟩

end Quantity

/-- **Truncation is exact**: what is done to the bits is what is to be done to
the number that they stand for. -/
theorem Binary.truncate_eq_saturate {f : Format} (h : 2 ≤ f.exponentBits) (low high : ℤ)
    (x : Binary f) : x.truncate low high = x.quantity.saturate low high := by
  rw [quantity_eq h, truncate]
  cases x.datum with
  | finite negative units =>
    rw [Datum.quantity, Quantity.saturate]
    cases negative with
    | false => simp [truncated_div]
    | true => simp [truncated_neg, truncated_div]
  | infinite negative => rfl
  | nan negative fraction => rfl

/-! ## Conversion -/

namespace Format

/-- Every number of the format `f` is one of the format `g`. -/
structure Within (f g : Format) : Prop where
  exponent : 2 ≤ f.exponentBits ∧ 2 ≤ g.exponentBits
  fraction : f.fractionBits ≤ g.fractionBits ∧ 0 < g.fractionBits
  scale : f.scale ≤ g.scale
  range : 2 ^ f.exponentBits + (g.scale - f.scale) ≤ 2 ^ g.exponentBits

theorem single_within_double : single.Within double where
  exponent := by decide
  fraction := by decide
  scale := by decide
  range := by decide

end Format

namespace Binary

variable {f g : Format}

/-- A number that has a pattern is given it. -/
theorem datum_ofRatio (negative : Bool) {num den significand shift : Nat} (hden : 0 < den)
    (hshort : significand < 2 ^ (f.fractionBits + 1)) (hshift : shift + 2 < 2 ^ f.exponentBits)
    (hexact : num <<< f.scale = significand * 2 ^ shift * den) :
    (ofRatio negative num den : Binary f).datum =
      .finite negative (significand * 2 ^ shift) := by
  obtain ⟨hfinite, hunits⟩ := Format.roundMagnitude_of_exact hden hshort hshift hexact
  rw [ofRatio, datum_of_finite negative hfinite, hunits]

/-- **Whole numbers are kept**, as far as the fraction goes. -/
theorem quantity_ofInt (h : 2 ≤ f.exponentBits) (hroom : f.scale + 2 < 2 ^ f.exponentBits)
    {n : ℤ} (hn : n.natAbs < 2 ^ (f.fractionBits + 1)) :
    (ofInt n : Binary f).quantity = .rational n := by
  have hexact : n.natAbs <<< f.scale = n.natAbs * 2 ^ f.scale * 1 := by
    rw [Nat.shiftLeft_eq, Nat.mul_one]
  rw [quantity_eq h, ofInt, datum_ofRatio _ Nat.one_pos hn hroom hexact, Datum.quantity]
  congr 1
  push_cast
  rw [mul_div_cancel_right₀ _ (by positivity)]
  by_cases hneg : n < 0
  · simp [hneg, Nat.cast_natAbs, abs_of_neg hneg]
  · simp [hneg, Nat.cast_natAbs, abs_of_nonneg (not_lt.mp hneg)]

theorem exists_significand (h : 2 ≤ f.exponentBits) {x : Binary f}
    (hfinite : x.magnitude < f.infinity) :
    ∃ significand shift, f.units x.magnitude = significand * 2 ^ shift ∧
      significand < 2 ^ (f.fractionBits + 1) ∧ shift + 2 < 2 ^ f.exponentBits := by
  have hfraction := x.fractionField_lt
  have hexponent := x.exponentField_lt
  have hne := x.magnitude_lt_infinity_iff.mp hfinite
  have hfour : 2 ^ 2 ≤ 2 ^ f.exponentBits := Nat.pow_le_pow_right two_pos h
  rw [units_magnitude, pow_succ]
  split
  · exact ⟨x.fractionField, 0, by simp, by omega, by omega⟩
  · exact ⟨_, _, rfl, by omega, by omega⟩

/-- The quiet bit keeps a NaN from becoming an infinity. -/
theorem moveFraction_or_quietBit (hg : 0 < g.fractionBits) {fraction : Nat}
    (h : fraction < 2 ^ f.fractionBits) :
    0 < moveFraction f g fraction ||| g.quietBit ∧
      moveFraction f g fraction ||| g.quietBit < 2 ^ g.fractionBits := by
  have hquiet : g.quietBit = 2 ^ (g.fractionBits - 1) := Nat.one_shiftLeft _
  constructor
  · refine Nat.lt_of_lt_of_le ?_ Nat.right_le_or
    rw [hquiet]
    exact Nat.two_pow_pos _
  · refine Nat.or_lt_two_pow ?_ ?_
    · rw [moveFraction, Nat.shiftRight_eq_div_pow, Nat.shiftLeft_eq]
      exact Nat.div_lt_of_lt_mul (Nat.mul_lt_mul_of_pos_right h (Nat.two_pow_pos _))
    · rw [hquiet]
      exact Nat.pow_lt_pow_right one_lt_two (by omega)

/-- **A wider format keeps every number.** -/
theorem quantity_convert (h : f.Within g) (x : Binary f) :
    (x.convert : Binary g).quantity = x.quantity := by
  rw [quantity_eq h.exponent.2, quantity_eq h.exponent.1, convert]
  rcases x.datum_cases with ⟨hfinite, hdatum⟩ | hdatum | ⟨fraction, hfraction, hdatum⟩
  · obtain ⟨significand, shift, hunits, hshort, hshift⟩ := exists_significand h.exponent.1 hfinite
    -- the same units are that many more of the smaller ones
    obtain ⟨more, hmore⟩ := Nat.exists_eq_add_of_le h.scale
    have hexact : f.units x.magnitude <<< g.scale =
        significand * 2 ^ (shift + more) * 1 <<< f.scale := by
      rw [hunits, hmore, Nat.shiftLeft_eq, Nat.shiftLeft_eq]
      ring
    have hwide : significand < 2 ^ (g.fractionBits + 1) :=
      hshort.trans_le (Nat.pow_le_pow_right two_pos (by have := h.fraction.1; omega))
    have hroom : shift + more + 2 < 2 ^ g.exponentBits := by
      have := h.range
      omega
    have hden : 0 < 1 <<< f.scale := by
      rw [Nat.one_shiftLeft]
      positivity
    rw [hdatum]
    dsimp only
    rw [datum_ofRatio _ hden hwide hroom hexact, Datum.quantity, Datum.quantity, hunits, hmore]
    congr 2
    push_cast
    rw [pow_add, pow_add, ← mul_assoc, mul_div_mul_right _ _ (by positivity)]
  · rw [hdatum]
    dsimp only
    rw [datum_infinity]
    rfl
  · rw [hdatum]
    dsimp only
    obtain ⟨hpos, hlt⟩ := moveFraction_or_quietBit h.fraction.2 hfraction
    rw [datum_of_nan _ hpos hlt]
    rfl

end Binary

end EventWire.Ieee754

namespace EventWire

open Ieee754 (Binary Binary64 Format Quantity)

/-! ## Scalars -/

/-- The ends of the range of an integer type. -/
def ScalarType.range? : ScalarType → Option (ℤ × ℤ)
  | .byte => some (0, 0xff)
  | .int16 => some (-0x8000, 0x7fff)
  | .int32 => some (-0x80000000, 0x7fffffff)
  | .float32 | .float64 => none

namespace Scalar

/-- What a scalar is, exactly. -/
def quantity : Scalar → Quantity
  | byte v => .rational v.toNat
  | int16 v => .rational v.toInt
  | int32 v => .rational v.toInt
  | float32 v => v.quantity
  | float64 v => v.quantity

/-- The integer that a scalar of an integer type is. -/
def integer? : Scalar → Option ℤ
  | byte v => some v.toNat
  | int16 v => some v.toInt
  | int32 v => some v.toInt
  | float32 _ | float64 _ => none

theorem quantity_double_ofInt {n : ℤ} (h : n.natAbs < 2 ^ 32) :
    (Binary.ofInt n : Binary64).quantity = .rational n :=
  Binary.quantity_ofInt (by decide) (by decide) (h.trans (by decide))

/-- **Double precision holds every scalar.** -/
theorem quantity_toDouble (scalar : Scalar) : scalar.toDouble.quantity = scalar.quantity := by
  cases scalar with
  | byte v =>
    have := v.toNat_lt
    exact quantity_double_ofInt (by omega)
  | int16 v =>
    have := v.le_toInt
    have := v.toInt_lt
    exact quantity_double_ofInt (by omega)
  | int32 v =>
    have := v.le_toInt
    have := v.toInt_lt
    exact quantity_double_ofInt (by omega)
  | float32 v => exact Binary.quantity_convert Format.single_within_double v
  | float64 v => rfl

/-- A scalar of an integer type is an integer of the range of its type. -/
theorem exists_integer {type : ScalarType} {low high : ℤ}
    (hrange : type.range? = some (low, high)) {scalar : Scalar} (htype : scalar.type = type) :
    ∃ n : ℤ, scalar.integer? = some n ∧ scalar.quantity = .rational n ∧ low ≤ n ∧ n ≤ high := by
  subst htype
  cases scalar with
  | byte v =>
    cases hrange
    have := v.toNat_lt
    exact ⟨_, rfl, rfl, by omega, by omega⟩
  | int16 v =>
    cases hrange
    have := v.toInt_lt
    exact ⟨_, rfl, rfl, v.le_toInt, by omega⟩
  | int32 v =>
    cases hrange
    have := v.toInt_lt
    exact ⟨_, rfl, rfl, v.le_toInt, by omega⟩
  | float32 v => exact nomatch hrange
  | float64 v => exact nomatch hrange

/-- **What an integer type makes of a number**: the number truncated, and brought
into the range of the type. -/
theorem integer?_convert {type : ScalarType} {low high : ℤ}
    (hrange : type.range? = some (low, high)) (scalar : Scalar) :
    (scalar.convert type).integer? = some (scalar.quantity.saturate low high) := by
  by_cases hsame : scalar.type = type
  · obtain ⟨n, hinteger, hquantity, hlow, hhigh⟩ := exists_integer hrange hsame
    rw [← hsame, convert_self, hinteger, hquantity, Quantity.saturate_of_mem hlow hhigh]
  · have htruncate (low high : ℤ) :
        scalar.toDouble.truncate low high = scalar.quantity.saturate low high := by
      rw [Binary.truncate_eq_saturate (by decide), quantity_toDouble]
    have hmem (hlow : low ≤ 0) (hhigh : 0 ≤ high) :=
      Quantity.saturate_mem hlow hhigh scalar.quantity
    unfold convert
    rw [if_neg hsame]
    cases type with
    | byte =>
      cases hrange
      obtain ⟨hlow, hhigh⟩ := hmem (by decide) (by decide)
      have hsize : (scalar.quantity.saturate 0 0xff).toNat < UInt8.size := by
        rw [UInt8.size]
        omega
      simp only [htruncate, integer?, UInt8.toNat_ofNat_of_lt' hsize, Int.toNat_of_nonneg hlow]
    | int16 =>
      cases hrange
      obtain ⟨hlow, hhigh⟩ := hmem (by decide) (by decide)
      simp only [htruncate, integer?, Int16.toInt_ofInt_of_le hlow (Int.lt_of_le_sub_one hhigh)]
    | int32 =>
      cases hrange
      obtain ⟨hlow, hhigh⟩ := hmem (by decide) (by decide)
      simp only [htruncate, integer?, Int32.toInt_ofInt_of_le hlow (Int.lt_of_le_sub_one hhigh)]
    | float32 => exact nomatch hrange
    | float64 => exact nomatch hrange

end Scalar

end EventWire
