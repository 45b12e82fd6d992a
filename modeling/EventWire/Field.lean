/-
EventWire.Field — the fields of an event, as they are declared: a name and a type.
-/
import EventWire.Field.Type

namespace EventWire

/-- A named, typed field. -/
structure Field where
  name : String
  type : FieldType
deriving DecidableEq

end EventWire
