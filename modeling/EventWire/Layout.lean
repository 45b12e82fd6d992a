/-
EventWire.Layout — where things lie within the records of an event.

    header | length (if some field is dynamic) | static fields | dynamic fields

The length counts all that follows the header, itself included. A layout is what these places
depend on: the form of the header, the width of all static fields together and the number of
dynamic ones. All else is computed from it.
-/
import EventWire.Header
import EventWire.Codec.Error

namespace EventWire

/-- The width of the lengths of records and of dynamic fields. -/
def lengthWidth : Nat := 4

/-- What the places within a record depend on. -/
structure Layout where
  form : HeaderForm
  /-- The width of all static fields together. -/
  staticWidth : Nat
  /-- The number of dynamic fields. -/
  dynamicCount : Nat
deriving DecidableEq

namespace Layout

def ofEvent (event : Event) : Layout where
  form := .ofId event.id
  staticWidth := (event.fields.map (·.type.width?.getD 0)).foldr (· + ·) 0
  dynamicCount := event.dynamicFields.length

def headerWidth (layout : Layout) : Nat := layout.form.width

/-- Whether all records have one size. -/
def isFixedSize (layout : Layout) : Bool := layout.dynamicCount = 0

/-- Where the static fields start. -/
def staticOffset (layout : Layout) : Nat :=
  if layout.isFixedSize then layout.headerWidth else layout.headerWidth + lengthWidth

/-- Where the dynamic fields start. -/
def dynamicOffset (layout : Layout) : Nat := layout.staticOffset + layout.staticWidth

/-- The size of a record whose dynamic fields are all empty. -/
def fixedPortion (layout : Layout) : Nat :=
  layout.dynamicOffset + layout.dynamicCount * lengthWidth

/-- The size of every record, where there is one. -/
def fixedSize? (layout : Layout) : Option Nat :=
  if layout.isFixedSize then some (layout.headerWidth + layout.staticWidth) else none

/-- The least length that a record may declare. -/
def minDeclared (layout : Layout) : Nat := layout.fixedPortion - layout.headerWidth

/-- The size of a record that declares the given length. -/
def recordLength (layout : Layout) (event : String) (declared : Nat) : Except CodecError Nat :=
  if declared < layout.minDeclared then
    .error (.invalidLength event declared s!"layout needs at least {layout.minDeclared}")
  else .ok (layout.headerWidth + declared)

theorem headerWidth_pos (layout : Layout) : 0 < layout.headerWidth := layout.form.width_pos

end Layout

end EventWire
