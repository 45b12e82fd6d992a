/-
EventWire.Field.Type — the seven field types.

A field holds a scalar, whose width is known from its type, or a blob, whose length travels with
it. Scalar fields are called static, blob fields dynamic; the two kinds are apart in the type, so
a function on scalars never has to answer for blobs.

Every type has a code, a name and some further spellings (`FieldType.aliases`). Names are matched
without regard to the case of ASCII letters.
-/
namespace EventWire

/-- Types whose values have a fixed width. -/
inductive ScalarType where
  | byte
  | int16
  | int32
  | float32
  | float64
deriving DecidableEq, Repr

/-- Types whose values carry their length. -/
inductive BlobType where
  /-- Text, as UTF-8. -/
  | string
  /-- Uninterpreted bytes. -/
  | bytes
deriving DecidableEq, Repr

/-- The type of a field. -/
inductive FieldType where
  | scalar (type : ScalarType)
  | blob (type : BlobType)
deriving DecidableEq, Repr

/-- The number of bytes that a scalar takes on the wire. -/
def ScalarType.width : ScalarType → Nat
  | .byte => 1
  | .int16 => 2
  | .int32 => 4
  | .float32 => 4
  | .float64 => 8

namespace FieldType

/-- Every type, in the order of the codes. -/
def all : List FieldType :=
  [.scalar .byte, .scalar .int16, .scalar .int32, .scalar .float32, .scalar .float64,
    .blob .string, .blob .bytes]

/-- The number that stands for a type in a schema's fingerprint. -/
def code : FieldType → UInt8
  | .scalar .byte => 0
  | .scalar .int16 => 1
  | .scalar .int32 => 2
  | .scalar .float32 => 3
  | .scalar .float64 => 4
  | .blob .string => 5
  | .blob .bytes => 6

def name : FieldType → String
  | .scalar .byte => "byte"
  | .scalar .int16 => "int16"
  | .scalar .int32 => "int32"
  | .scalar .float32 => "float32"
  | .scalar .float64 => "float64"
  | .blob .string => "string"
  | .blob .bytes => "bytes"

/-- Other spellings of a type, in lower case. -/
def aliases : FieldType → List String
  | .scalar .byte => ["u8"]
  | .scalar .int16 => ["short", "i16"]
  | .scalar .int32 => ["int", "integer", "i32"]
  | .scalar .float32 => ["float", "f32"]
  | .scalar .float64 => ["double", "number", "f64"]
  | .blob .string => ["str", "utf8"]
  | .blob .bytes => ["buf", "buffer", "binary"]

/-- The fixed width of a static type. -/
def width? : FieldType → Option Nat
  | .scalar type => some type.width
  | .blob _ => none

/-- Whether the width is fixed by the type. -/
def isStatic : FieldType → Bool
  | .scalar _ => true
  | .blob _ => false

/-- Whether the length travels with the value. -/
def isDynamic (type : FieldType) : Bool := !type.isStatic

instance : ToString FieldType := ⟨name⟩

end FieldType

end EventWire
