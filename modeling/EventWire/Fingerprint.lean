/-
EventWire.Fingerprint — one number for a whole set of events.

Two peers agree on a protocol when their fingerprints are equal. The fingerprint is the checksum of
a canonical byte form (`Fingerprint.canonicalForm`), which lists the events by id and puts a count
or a length before everything that may vary in length, so that different sets have different forms.
-/
import EventWire.Crc32
import EventWire.Event
import EventWire.Text.Utf8

namespace EventWire

/-- A number that stands for a set of events. -/
structure Fingerprint where
  value : UInt32
deriving DecidableEq

namespace Fingerprint

/-- A count or a length, in four bytes. -/
def countForm (n : Nat) : Bytes := BigEndian.encode 4 n

/-- A text after its length. -/
def textForm (s : String) : Bytes :=
  let content := Utf8.encode s
  countForm content.length ++ content

/-- A field's name and the code of its type. -/
def fieldForm (field : Field) : Bytes := textForm field.name ++ [field.type.code]

/-- An event's id, name and fields. -/
def eventForm (event : Event) : Bytes :=
  BigEndian.encode 4 event.id.toNat ++ textForm event.name ++
    (countForm event.fields.length ++ event.fields.flatMap fieldForm)

/-- Events by id; those of one id keep their order. -/
def sortById (events : List Event) : List Event := events.mergeSort (·.id ≤ ·.id)

/-- The byte form that stands for a list of events. -/
def canonicalForm (events : List Event) : Bytes :=
  countForm events.length ++ (sortById events).flatMap eventForm

/-- The fingerprint of a list of events. -/
def ofEvents (events : List Event) : Fingerprint := ⟨Crc32.checksum (canonicalForm events)⟩

/-- Eight lower-case hexadecimal digits. -/
def hex (fingerprint : Fingerprint) : String :=
  let digits := String.ofList (Nat.toDigits 16 fingerprint.value.toNat)
  String.ofList (List.replicate (8 - digits.length) '0') ++ digits

instance : ToString Fingerprint := ⟨hex⟩

end Fingerprint

end EventWire
