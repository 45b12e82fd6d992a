/-
EventWire.Field.Error — what can be wrong with a field's type or value, and the two look-ups of a
type that can fail: by code (`FieldType.ofCode`) and by name (`FieldType.ofName`).
-/
import EventWire.Field.Type

namespace EventWire

/-- What can be wrong with a field's type or with the value given for it. -/
inductive FieldError where
  | unknownCode (code : UInt8)
  | unknownName (name : String)
  /-- The value's type is not the declared one. -/
  | mismatch (field : String) (expected found : FieldType)
  /-- Bytes given for a text are not UTF-8. -/
  | notUtf8 (field : String) (expected : FieldType)
deriving DecidableEq

namespace FieldError

/-- The text shown for an error. -/
def message : FieldError → String
  | unknownCode code => s!"Unknown field type code {code}: valid codes are 0-6"
  | unknownName name => s!"Unknown field type name '{name}'"
  | mismatch field expected found => s!"Field '{field}' expects {expected}, got {found}"
  | notUtf8 field expected =>
    s!"Field '{field}' expects {expected}, got bytes that are not valid UTF-8"

end FieldError

namespace FieldType

/-- The type with a given code. -/
def ofCode (code : UInt8) : Except FieldError FieldType :=
  match all.find? (·.code = code) with
  | some type => .ok type
  | none => .error (.unknownCode code)

/-- The type with a given name or other spelling, in any mixture of cases. -/
def ofName (name : String) : Except FieldError FieldType :=
  let spelling := name.map Char.toLower
  match all.find? fun type => spelling = type.name ∨ spelling ∈ type.aliases with
  | some type => .ok type
  | none => .error (.unknownName name)

end FieldType

end EventWire
