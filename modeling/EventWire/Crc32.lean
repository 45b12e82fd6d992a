/-
EventWire.Crc32 — the 32-bit cyclic redundancy check of IEEE 802.3.

The register is the remainder of a polynomial over the field of two elements, its lowest bit the
highest power. A step shifts one bit out (`Crc32.step`); a byte is added to the low end and takes
eight steps (`Crc32.update`). The register starts and ends inverted.
-/
import EventWire.Bytes

namespace EventWire.Crc32

/-- The generator polynomial without its highest power, lowest bit first. -/
def polynomial : BitVec 32 := 0xedb88320

/-- One bit shifted out of the register. -/
def step (register : BitVec 32) : BitVec 32 :=
  if register.getLsbD 0 then (register >>> 1) ^^^ polynomial else register >>> 1

/-- The register after `n` steps. -/
def steps : Nat → BitVec 32 → BitVec 32
  | 0, register => register
  | n + 1, register => steps n (step register)

/-- The register after one more byte. -/
def update (register : BitVec 32) (byte : UInt8) : BitVec 32 :=
  steps 8 (register ^^^ byte.toBitVec.setWidth 32)

/-- The checksum of a byte sequence. -/
def checksum (bs : Bytes) : UInt32 := ⟨~~~ bs.foldl update (.allOnes 32)⟩

end EventWire.Crc32
