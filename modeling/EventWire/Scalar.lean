/-
EventWire.Scalar — numbers of the five static types.

* `Scalar.encode`, `Scalar.decode` — the big-endian bytes of a scalar's bit pattern.
  `Scalar.decode_encode` reads every scalar back, and `Scalar.encode_decode` says that no other
  bytes spell it.
* `Scalar.toDouble` — the exact value of a scalar in double precision, which holds all of them.
* `Scalar.convert` — the scalar of another type that stands for it when types are not checked:
  integers are truncated toward zero and brought into range, floats rounded to nearest, and a
  scalar of the wanted type is left as it is.
-/
import EventWire.Bytes
import EventWire.Ieee754
import EventWire.Field.Type

namespace EventWire

open Ieee754 (Binary32 Binary64 Binary)

/-- A number of a static type. -/
inductive Scalar where
  | byte (v : UInt8)
  | int16 (v : Int16)
  | int32 (v : Int32)
  | float32 (v : Binary32)
  | float64 (v : Binary64)
deriving DecidableEq

namespace Scalar

def type : Scalar → ScalarType
  | byte _ => .byte
  | int16 _ => .int16
  | int32 _ => .int32
  | float32 _ => .float32
  | float64 _ => .float64

/-- The value in double precision, exact for every scalar but the NaNs of single precision. -/
def toDouble : Scalar → Binary64
  | byte v => .ofInt v.toNat
  | int16 v => .ofInt v.toInt
  | int32 v => .ofInt v.toInt
  | float32 v => v.convert
  | float64 v => v

/-- The scalar of type `target` that stands for the given one. -/
def convert (target : ScalarType) (scalar : Scalar) : Scalar :=
  if scalar.type = target then scalar
  else
    match target with
    | .byte => byte (.ofNat (scalar.toDouble.truncate 0 255).toNat)
    | .int16 => int16 (.ofInt (scalar.toDouble.truncate (-0x8000) 0x7fff))
    | .int32 => int32 (.ofInt (scalar.toDouble.truncate (-0x80000000) 0x7fffffff))
    | .float32 => float32 scalar.toDouble.convert
    | .float64 => float64 scalar.toDouble

@[simp] theorem convert_self (scalar : Scalar) : scalar.convert scalar.type = scalar := by
  simp [convert]

@[simp] theorem type_convert (target : ScalarType) (scalar : Scalar) :
    (scalar.convert target).type = target := by
  unfold convert
  split
  · assumption
  · cases target <;> rfl

/-- The bit pattern of a scalar: two's complement for integers. -/
def bits : Scalar → Nat
  | byte v => v.toNat
  | int16 v => v.toUInt16.toNat
  | int32 v => v.toUInt32.toNat
  | float32 v => v.bits.toNat
  | float64 v => v.bits.toNat

/-- The scalar with a given bit pattern. -/
def ofBits (type : ScalarType) (n : Nat) : Scalar :=
  match type with
  | .byte => byte (.ofNat n)
  | .int16 => int16 (UInt16.ofNat n).toInt16
  | .int32 => int32 (UInt32.ofNat n).toInt32
  | .float32 => float32 ⟨.ofNat _ n⟩
  | .float64 => float64 ⟨.ofNat _ n⟩

@[simp] theorem type_ofBits (type : ScalarType) (n : Nat) : (ofBits type n).type = type := by
  cases type <;> rfl

theorem bits_lt (scalar : Scalar) : scalar.bits < BigEndian.capacity scalar.type.width := by
  cases scalar with
  | byte v => exact v.toNat_lt
  | int16 v => exact v.toUInt16.toNat_lt
  | int32 v => exact v.toUInt32.toNat_lt
  | float32 v => exact v.bits.isLt
  | float64 v => exact v.bits.isLt

@[simp] theorem ofBits_bits (scalar : Scalar) : ofBits scalar.type scalar.bits = scalar := by
  cases scalar <;> simp [ofBits, bits, type]

theorem bits_ofBits {type : ScalarType} {n : Nat} (h : n < BigEndian.capacity type.width) :
    (ofBits type n).bits = n := by
  cases type <;> exact Nat.mod_eq_of_lt h

/-- The bytes of a scalar, most significant first. -/
def encode (scalar : Scalar) : Bytes := BigEndian.encode scalar.type.width scalar.bits

/-- The scalar that the given bytes spell, as many as the type is wide. -/
def decode (type : ScalarType) (bs : Bytes) : Scalar := ofBits type (BigEndian.decode bs)

@[simp] theorem type_decode (type : ScalarType) (bs : Bytes) : (decode type bs).type = type :=
  type_ofBits ..

@[simp] theorem length_encode (scalar : Scalar) : scalar.encode.length = scalar.type.width :=
  BigEndian.length_encode ..

/-- Every scalar is read back, whatever its bits. -/
@[simp] theorem decode_encode (scalar : Scalar) : decode scalar.type scalar.encode = scalar := by
  rw [decode, encode, BigEndian.decode_encode scalar.bits_lt, ofBits_bits]

/-- Bytes of the right number are those of the scalar they spell. -/
theorem encode_decode {type : ScalarType} {bs : Bytes} (h : bs.length = type.width) :
    (decode type bs).encode = bs := by
  have fits := BigEndian.decode_lt bs
  rw [h] at fits
  rw [encode, decode, type_ofBits, bits_ofBits fits, ← h, BigEndian.encode_decode]

end Scalar

end EventWire
