/-
EventWire.Proofs.BurstDetection — the errors that a checksum never misses.

A step of the register loses nothing: the polynomial has its last coefficient, so
the bit that is shifted out comes back in at the top (`Crc32.step_injective`). What
has once made a difference to the register therefore makes one to the end, and what
remains to be shown is that different bytes make a difference.

Steps are linear, and a bit that has not come to the low end is only moved. So up to
four bytes may be added to the register at once, before all of their steps
(`Crc32.foldl_update`): they are not reduced before each of them has its place in
the register, and there the bytes are still to be read off (`Crc32.word_injective`).
With a fifth byte there would be more values than registers.
-/
import EventWire.Crc32
import Mathlib.Logic.Function.Basic

/-! ## Windows -/

namespace EventWire.Bytes

/-- Two byte sequences of one length that are the same outside a window. -/
structure AgreeOutside (start width : Nat) (as bs : Bytes) : Prop where
  length : as.length = bs.length
  outside : ∀ i, i < start ∨ start + width ≤ i → as[i]? = bs[i]?

theorem take_append_slice_append_drop (bs : Bytes) (start width : Nat) :
    bs.take start ++ (bs.slice start width ++ bs.drop (start + width)) = bs := by
  rw [slice, ← List.drop_drop, List.take_append_drop, List.take_append_drop]

variable {start width : Nat} {as bs : Bytes}

theorem AgreeOutside.take_eq (h : AgreeOutside start width as bs) :
    as.take start = bs.take start := by
  apply List.ext_getElem?
  intro i
  rw [List.getElem?_take, List.getElem?_take]
  split
  · rename_i hi
    exact h.outside i (.inl hi)
  · rfl

theorem AgreeOutside.drop_eq (h : AgreeOutside start width as bs) :
    as.drop (start + width) = bs.drop (start + width) := by
  apply List.ext_getElem?
  intro i
  rw [List.getElem?_drop, List.getElem?_drop]
  exact h.outside _ (.inr (Nat.le_add_right ..))

/-- What replaces as many bytes is outside their window the same. -/
theorem agreeOutside_middle {middle middle' : Bytes} (before after : Bytes)
    (h : middle.length = middle'.length) (hwidth : middle.length ≤ width) :
    AgreeOutside before.length width (before ++ (middle ++ after))
      (before ++ (middle' ++ after)) where
  length := by simp only [List.length_append, h]
  outside := by
    rintro i (hi | hi)
    · rw [List.getElem?_append_left hi, List.getElem?_append_left hi]
    · rw [List.getElem?_append_right (by omega), List.getElem?_append_right (by omega),
        List.getElem?_append_right (by omega), List.getElem?_append_right (by omega), h]

end EventWire.Bytes

namespace EventWire.Crc32

variable {register a b : BitVec 32} {as bs : Bytes} {i n : Nat}

/-! ## Steps lose nothing -/

theorem getLsbD_step (register : BitVec 32) (i : Nat) :
    (step register).getLsbD i =
      (register.getLsbD (i + 1) ^^ (register.getLsbD 0 && polynomial.getLsbD i)) := by
  unfold step
  cases register.getLsbD 0 <;> simp [Nat.add_comm]

/-- The bit that is shifted out comes back in at the top. -/
theorem getLsbD_step_top (register : BitVec 32) :
    (step register).getLsbD 31 = register.getLsbD 0 := by
  have htop : polynomial.getLsbD 31 = true := rfl
  rw [getLsbD_step, htop, BitVec.getLsbD_of_ge register 32 (Nat.le_refl _)]
  simp

theorem step_injective : Function.Injective step := by
  intro a b h
  have hlow : a.getLsbD 0 = b.getLsbD 0 := by
    rw [← getLsbD_step_top, ← getLsbD_step_top, h]
  apply BitVec.eq_of_getLsbD_eq
  intro i _
  cases i with
  | zero => exact hlow
  | succ i =>
    have hbit : (step a).getLsbD i = (step b).getLsbD i := by rw [h]
    rw [getLsbD_step, getLsbD_step, hlow] at hbit
    exact Bool.xor_left_inj.mp hbit

theorem steps_injective (n : Nat) : Function.Injective (steps n) := by
  induction n with
  | zero => exact fun _ _ h => h
  | succ n ih => exact ih.comp step_injective

theorem update_injective (byte : UInt8) : Function.Injective (update · byte) := by
  intro a b h
  exact (BitVec.xor_left_inj _).mp (steps_injective 8 h)

/-- The bytes that follow keep registers apart. -/
theorem foldl_update_injective (bs : Bytes) :
    Function.Injective fun register : BitVec 32 => bs.foldl update register := by
  induction bs with
  | nil => exact fun _ _ h => h
  | cons byte bs ih => exact ih.comp (update_injective byte)

/-! ## Steps are linear -/

theorem step_xor (a b : BitVec 32) : step (a ^^^ b) = step a ^^^ step b := by
  apply BitVec.eq_of_getLsbD_eq
  intro i _
  simp only [getLsbD_step, BitVec.getLsbD_xor, Bool.and_xor_distrib_right]
  simp only [Bool.xor_assoc, Bool.xor_left_comm]

theorem steps_xor (n : Nat) (a b : BitVec 32) : steps n (a ^^^ b) = steps n a ^^^ steps n b := by
  induction n generalizing a b with
  | zero => rfl
  | succ n ih => rw [steps, step_xor, ih, steps, steps]

theorem steps_add (m n : Nat) (register : BitVec 32) :
    steps (m + n) register = steps n (steps m register) := by
  induction m generalizing register with
  | zero => rw [Nat.zero_add, steps]
  | succ m ih => rw [Nat.succ_add, steps, steps, ih]

/-- Zeros at the low end are shifted out, and that is all. -/
theorem steps_eq_shift (h : ∀ i < n, register.getLsbD i = false) :
    steps n register = register >>> n := by
  induction n generalizing register with
  | zero => simp [steps]
  | succ n ih =>
    have hstep : step register = register >>> 1 := by
      rw [step, h 0 (Nat.zero_lt_succ n)]
      rfl
    rw [steps, hstep, ih, Nat.add_comm n 1, BitVec.shiftRight_add]
    intro i hi
    rw [BitVec.getLsbD_ushiftRight, Nat.add_comm]
    exact h (i + 1) (Nat.succ_lt_succ hi)

/-! ## Bytes in the register -/

/-- Bytes side by side, the first at the low end. -/
def word : Bytes → BitVec 32
  | [] => 0
  | byte :: bs => byte.toBitVec.setWidth 32 ^^^ word bs <<< 8

theorem getLsbD_word_cons (byte : UInt8) (bs : Bytes) (h : i < 32) :
    (word (byte :: bs)).getLsbD i =
      if i < 8 then byte.toBitVec.getLsbD i else (word bs).getLsbD (i - 8) := by
  rw [word, BitVec.getLsbD_xor, BitVec.getLsbD_setWidth, BitVec.getLsbD_shiftLeft]
  split
  · rename_i hlow
    simp [h, hlow]
  · rename_i hhigh
    simp [h, hhigh, BitVec.getLsbD_of_ge byte.toBitVec i (Nat.not_lt.mp hhigh)]

/-- Past the bytes there are zeros. -/
theorem getLsbD_word_of_le (h : 8 * bs.length ≤ i) : (word bs).getLsbD i = false := by
  induction bs generalizing i with
  | nil => simp [word]
  | cons byte bs ih =>
    rw [List.length_cons] at h
    by_cases hi : i < 32
    · rw [getLsbD_word_cons byte bs hi, if_neg (by omega), ih (by omega)]
    · exact BitVec.getLsbD_of_ge _ i (Nat.not_lt.mp hi)

/-- Up to three bytes leave the place of a first one before them. -/
theorem steps_word_shift (h : bs.length < 4) : steps 8 (word bs <<< 8) = word bs := by
  have hzeros : ∀ i < 8, (word bs <<< 8).getLsbD i = false := by
    intro i hi
    simp [BitVec.getLsbD_shiftLeft, hi]
  rw [steps_eq_shift hzeros]
  apply BitVec.eq_of_getLsbD_eq
  intro i hi
  rw [BitVec.getLsbD_ushiftRight, BitVec.getLsbD_shiftLeft]
  by_cases hfits : 8 + i < 32
  · simp [hfits]
  · simp [hfits, @getLsbD_word_of_le bs i (by omega)]

/-- **Up to four bytes at once**: they are added to the register before the first
step. -/
theorem foldl_update (h : bs.length ≤ 4) (register : BitVec 32) :
    bs.foldl update register = steps (8 * bs.length) (register ^^^ word bs) := by
  induction bs generalizing register with
  | nil => simp [steps, word]
  | cons byte bs ih =>
    have hroom : bs.length < 4 := h
    have hbyte : update register byte ^^^ word bs = steps 8 (register ^^^ word (byte :: bs)) := by
      calc update register byte ^^^ word bs
        _ = update register byte ^^^ steps 8 (word bs <<< 8) := by rw [steps_word_shift hroom]
        _ = steps 8 (register ^^^ word (byte :: bs)) := by
          rw [update, ← steps_xor, word, BitVec.xor_assoc]
    rw [List.foldl_cons, ih (Nat.le_of_lt hroom), hbyte, ← steps_add, List.length_cons,
      Nat.mul_succ, Nat.add_comm]

/-- Four bytes fit the register. -/
theorem word_injective (hlength : as.length = bs.length) (hfits : as.length ≤ 4)
    (h : word as = word bs) : as = bs := by
  induction as generalizing bs with
  | nil => exact (List.length_eq_zero_iff.mp hlength.symm).symm
  | cons byte as ih =>
    cases bs with
    | nil => exact nomatch hlength
    | cons byte' bs =>
      rw [List.length_cons] at hfits
      have hlength' : as.length = bs.length := Nat.succ.inj hlength
      have hbit {i : Nat} (hi : i < 32) :
          (if i < 8 then byte.toBitVec.getLsbD i else (word as).getLsbD (i - 8)) =
            if i < 8 then byte'.toBitVec.getLsbD i else (word bs).getLsbD (i - 8) := by
        rw [← getLsbD_word_cons byte as hi, ← getLsbD_word_cons byte' bs hi, h]
      have hfirst : byte = byte' := by
        apply UInt8.toBitVec_inj.mp
        apply BitVec.eq_of_getLsbD_eq
        intro i hi
        simpa [hi] using hbit (i := i) (by omega)
      have hrest : word as = word bs := by
        apply BitVec.eq_of_getLsbD_eq
        intro i _
        by_cases hi : i + 8 < 32
        · have hlater : ¬ i + 8 < 8 := by omega
          simpa [hlater] using hbit hi
        · rw [getLsbD_word_of_le (by omega), getLsbD_word_of_le (by omega)]
      rw [hfirst, ih hlength' (by omega) hrest]

/-! ## Bursts -/

/-- **A burst is detected**: where bytes differ within a window of four, so do the
checksums. -/
theorem checksum_ne {start : Nat} (h : Bytes.AgreeOutside start 4 as bs) (hne : as ≠ bs) :
    checksum as ≠ checksum bs := by
  have hwindow : as.slice start 4 ≠ bs.slice start 4 := by
    intro hsame
    apply hne
    rw [← Bytes.take_append_slice_append_drop as start 4, h.take_eq, hsame, h.drop_eq,
      Bytes.take_append_slice_append_drop]
  have hlength : (as.slice start 4).length = (bs.slice start 4).length := by
    simp only [Bytes.slice, List.length_take, List.length_drop, h.length]
  have hfits : (as.slice start 4).length ≤ 4 := List.length_take_le ..
  intro hsum
  have hregister : as.foldl update (.allOnes 32) = bs.foldl update (.allOnes 32) :=
    BitVec.not_inj.mp (UInt32.ofBitVec.inj hsum)
  rw [← Bytes.take_append_slice_append_drop as start 4,
    ← Bytes.take_append_slice_append_drop bs start 4, h.take_eq, h.drop_eq] at hregister
  simp only [List.foldl_append] at hregister
  have hmiddle := foldl_update_injective _ hregister
  have hfits' : (bs.slice start 4).length ≤ 4 := List.length_take_le ..
  rw [foldl_update hfits, foldl_update hfits', hlength] at hmiddle
  exact hwindow (word_injective hlength hfits
    ((BitVec.xor_right_inj _).mp (steps_injective _ hmiddle)))

/-- Other bytes in place of up to four have another checksum. -/
theorem checksum_ne_of_middle (before after : Bytes) (hlength : as.length = bs.length)
    (hfits : as.length ≤ 4) (hne : as ≠ bs) :
    checksum (before ++ (as ++ after)) ≠ checksum (before ++ (bs ++ after)) := by
  refine checksum_ne (Bytes.agreeOutside_middle before after hlength hfits) fun hsame => hne ?_
  exact List.append_cancel_right (List.append_cancel_left hsame)

end EventWire.Crc32
