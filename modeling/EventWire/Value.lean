/-
EventWire.Value — what a field of a record holds: a scalar, a text or bytes.

Equality is equality of bits, also for floats: a NaN equals itself, and the zeros differ.
-/
import EventWire.Scalar
import EventWire.Text.Utf8

namespace EventWire

/-- The value of a field. -/
inductive Value where
  | scalar (v : Scalar)
  | string (s : String)
  | bytes (bs : Bytes)
deriving DecidableEq

namespace Value

/-- The type that a value has. -/
def type : Value → FieldType
  | scalar v => .scalar v.type
  | string _ => .blob .string
  | bytes _ => .blob .bytes

/-- The number that a value is, in double precision. -/
def toDouble? : Value → Option Ieee754.Binary64
  | scalar v => some v.toDouble
  | _ => none

/-- The bytes of a text or of a byte value. -/
def toBytes? : Value → Option Bytes
  | scalar _ => none
  | string s => some (Utf8.encode s)
  | bytes bs => some bs

/-- The text that a value is. -/
def toText? : Value → Option String
  | string s => some s
  | _ => none

end Value

end EventWire
