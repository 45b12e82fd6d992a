/-
EventWire.Bytes — byte sequences and fixed-width big-endian numbers.

* `Bytes` — the sequences that travel on the wire.
* `Bytes.slice` — a stretch given by its offset and width.
* `Bytes.reaches` — whether there are at least so many.
* `BigEndian.encode w n` — the `w` bytes of `n`, most significant first; a number beyond their
  `BigEndian.capacity` loses its leading digits.
* `BigEndian.decode bs` — the number that `bs` spells.

The two directions undo each other: `BigEndian.decode_encode` for numbers that fit, and
`BigEndian.encode_decode` for every byte sequence.
-/
namespace EventWire

/-- A finite sequence of octets. -/
abbrev Bytes := List UInt8

/-- The `width` bytes that start at `offset`; fewer where `bs` ends before. -/
def Bytes.slice (bs : Bytes) (offset width : Nat) : Bytes := (bs.drop offset).take width

theorem Bytes.length_slice {bs : Bytes} {offset width : Nat} (fits : offset + width ≤ bs.length) :
    (bs.slice offset width).length = width := by
  simp only [Bytes.slice, List.length_take, List.length_drop]
  omega

/-- A slice looks at nothing past its own end. -/
theorem Bytes.slice_append {bs : Bytes} {offset width : Nat} (fits : offset + width ≤ bs.length)
    (rest : Bytes) : Bytes.slice (bs ++ rest) offset width = bs.slice offset width := by
  unfold Bytes.slice
  rw [List.drop_append_of_le_length (by omega), List.take_append_of_le_length]
  rw [List.length_drop]
  omega

/-- Whether there are at least `n` bytes, found without walking past them. -/
def Bytes.reaches : Bytes → Nat → Bool
  | _, 0 => true
  | [], _ + 1 => false
  | _ :: bs, n + 1 => Bytes.reaches bs n

@[simp] theorem Bytes.reaches_iff {bs : Bytes} {n : Nat} : bs.reaches n ↔ n ≤ bs.length := by
  induction bs generalizing n with
  | nil => cases n <;> simp [Bytes.reaches]
  | cons b bs ih => cases n <;> simp [Bytes.reaches, ih]

namespace BigEndian

/-- The number of values that `w` bytes can spell. -/
def capacity : Nat → Nat
  | 0 => 1
  | w + 1 => 256 * capacity w

theorem capacity_pos (w : Nat) : 0 < capacity w := by
  induction w with
  | zero => decide
  | succ w ih => exact Nat.mul_pos (by decide) ih

/-- The `w` bytes of `n`, most significant first. -/
def encode : Nat → Nat → Bytes
  | 0, _ => []
  | w + 1, n => UInt8.ofNat (n / capacity w) :: encode w n

/-- The number whose base-256 digits are the given bytes, most significant first. -/
def decode : Bytes → Nat
  | [] => 0
  | b :: bs => b.toNat * capacity bs.length + decode bs

@[simp] theorem length_encode (w n : Nat) : (encode w n).length = w := by
  induction w with
  | zero => rfl
  | succ w ih => simp [encode, ih]

theorem decode_lt (bs : Bytes) : decode bs < capacity bs.length := by
  induction bs with
  | nil => decide
  | cons b bs ih =>
    have : (b.toNat + 1) * capacity bs.length ≤ 256 * capacity bs.length :=
      Nat.mul_le_mul_right _ b.toNat_lt
    rw [Nat.add_mul, Nat.one_mul] at this
    rw [decode, List.length_cons, capacity]
    omega

theorem decode_encode_mod (w n : Nat) : decode (encode w n) = n % capacity w := by
  induction w with
  | zero => simp [encode, decode, capacity, Nat.mod_one]
  | succ w ih =>
    rw [encode, decode, length_encode, ih, capacity, Nat.mul_comm 256, Nat.mod_mul, Nat.mul_comm,
      Nat.add_comm]
    rfl

/-- A number that fits its width is read back. -/
theorem decode_encode {w n : Nat} (h : n < capacity w) : decode (encode w n) = n := by
  rw [decode_encode_mod, Nat.mod_eq_of_lt h]

theorem encode_add_mul_capacity (w n k : Nat) : encode w (n + k * capacity w) = encode w n := by
  induction w generalizing k with
  | zero => rfl
  | succ w ih =>
    have split : k * capacity (w + 1) = (k * 256) * capacity w := by
      rw [capacity, Nat.mul_assoc]
    rw [encode, encode, split, ih, Nat.add_mul_div_right _ _ (capacity_pos w)]
    congr 1
    apply UInt8.toNat_inj.1
    simp [UInt8.toNat_ofNat']

/-- Bytes are the digits of the number they spell. -/
theorem encode_decode (bs : Bytes) : encode bs.length (decode bs) = bs := by
  induction bs with
  | nil => rfl
  | cons b bs ih =>
    rw [List.length_cons, encode, decode]
    congr 1
    · rw [Nat.mul_comm, Nat.mul_add_div (capacity_pos _), Nat.div_eq_of_lt (decode_lt bs)]
      simp
    · rw [Nat.add_comm, encode_add_mul_capacity, ih]

end BigEndian

end EventWire
