/-
EventWire.Event — definitions of events.

An event has an id, a name and fields. `Event.define` is the checked way to one: it refuses bad
and repeated names and puts the fields into wire order, static ones first and each group in name
order, so the order in which the fields were given is lost. An `Event` as such may hold anything;
those read from a document do.

Ids up to 254 are compact and travel in one byte; the others are extended.
-/
import EventWire.Event.Error
import EventWire.Event.Name
import EventWire.Field

namespace EventWire

/-- The greatest id that travels in one byte. -/
def maxCompactId : UInt32 := 254

/-- An event: its number, its name and its fields in wire order. -/
structure Event where
  id : UInt32
  name : String
  fields : List Field
deriving DecidableEq

namespace Event

/-- Whether the id takes more than one byte. -/
def isExtended (event : Event) : Bool := maxCompactId < event.id

/-- The first field with a given name. -/
def field? (event : Event) (name : String) : Option Field :=
  event.fields.find? (·.name = name)

/-- The fields of fixed width, in wire order. -/
def staticFields (event : Event) : List Field := event.fields.filter (·.type.isStatic)

/-- The fields that carry their length, in wire order. -/
def dynamicFields (event : Event) : List Field := event.fields.filter (·.type.isDynamic)

def hasDynamicFields (event : Event) : Bool := event.fields.any (·.type.isDynamic)

/-- What is wrong with the name of an event, if anything. -/
def checkName (name : String) : Except SchemaError Unit :=
  if !Name.isEventName name then .error (.invalidName name Name.eventRule)
  else if name ∈ Name.reserved then .error (.invalidName name Name.reservedRule)
  else .ok ()

/-- The first field whose name is no field name is an error. -/
def checkFieldNames (event : String) (fields : List Field) : Except SchemaError Unit :=
  match fields.find? fun field => !Name.isFieldName field.name with
  | some field => .error (.invalidField event field.name Name.fieldRule)
  | none => .ok ()

/-- Fields in name order; those of one name keep their order. -/
def sortByName (fields : List Field) : List Field := fields.mergeSort (·.name ≤ ·.name)

/-- The first name that the next field has as well. -/
def adjacentDuplicate? : List Field → Option String
  | a :: b :: rest => if a.name = b.name then some a.name else adjacentDuplicate? (b :: rest)
  | _ => none

/-- Static fields first, each group in the order given. -/
def staticFirst (fields : List Field) : List Field :=
  fields.filter (·.type.isStatic) ++ fields.filter (·.type.isDynamic)

/-- An event with checked names and its fields in wire order. The event's name is checked before
those of the fields, and these before repetitions. -/
def define (id : UInt32) (name : String) (fields : List Field) : Except SchemaError Event := do
  checkName name
  checkFieldNames name fields
  let sorted := sortByName fields
  match adjacentDuplicate? sorted with
  | some field => .error (.invalidField name field Name.uniqueRule)
  | none => .ok ⟨id, name, staticFirst sorted⟩

end Event

end EventWire
