/-
EventWire.Document — values, records, events and settings as documents.

    field type   "Int32"
    value        {"Int32":7}
    record       {"id":{"Int32":7},"text":{"Str":"hi"}}
    event        {"id":0,"name":"ping","fields":[{"name":"id","type":"Int32"}]}
    settings     {"registry":{"typecheck":true,"max_compact_events":255},
                  "framer":{"max_pending_bytes":null}}

An event that is read is taken as it stands: its names are not checked and its fields not put in
order. `Event.ofJson?` is thus the way to events that `Event.define` never makes.
-/
import EventWire.Event
import EventWire.Fingerprint
import EventWire.Json.Float
import EventWire.Json.Form
import EventWire.Json.Reader
import EventWire.Json.Writer
import EventWire.Record
import EventWire.Settings

namespace EventWire

open Json (text variant variant? fields?)

/-- The text of a value's document. -/
def serialize {α : Type} [JsonForm α] (x : α) : String := (toJson x).render

/-- The value that a text stands for. -/
def deserialize? (α : Type) [JsonForm α] (s : String) : Option α := Json.read? s >>= ofJson?

/-! ## Field types -/

/-- The name of a type in documents. -/
def FieldType.tag : FieldType → String
  | .scalar .byte => "Byte"
  | .scalar .int16 => "Int16"
  | .scalar .int32 => "Int32"
  | .scalar .float32 => "Float32"
  | .scalar .float64 => "Float64"
  | .blob .string => "Utf8String"
  | .blob .bytes => "RawBytes"

/-- The type with a given name in documents. -/
def FieldType.ofTag? (tag : String) : Option FieldType := FieldType.all.find? (·.tag = tag)

/-- A type is its name; it may be read from a variant without a value as well. -/
instance : JsonForm FieldType where
  toJson type := text type.tag
  ofJson?
    | .string s => s >>= FieldType.ofTag?
    | document =>
      match variant? document with
      | some (tag, .null) => FieldType.ofTag? tag
      | _ => none

/-! ## Values and records -/

instance : JsonForm Ieee754.Binary32 where
  toJson := Json.float Json.singleStyle
  ofJson?
    | .number n => n.toSingle?
    | _ => none

instance : JsonForm Ieee754.Binary64 where
  toJson := Json.float Json.doubleStyle
  ofJson?
    | .number n => n.toDouble?
    | _ => none

/-- The document of a value, under the name of its kind. -/
def Value.toJson : Value → Json
  | .scalar (.byte v) => variant "Byte" (EventWire.toJson v)
  | .scalar (.int16 v) => variant "Int16" (EventWire.toJson v)
  | .scalar (.int32 v) => variant "Int32" (EventWire.toJson v)
  | .scalar (.float32 v) => variant "Float32" (EventWire.toJson v)
  | .scalar (.float64 v) => variant "Float64" (EventWire.toJson v)
  | .string s => variant "Str" (EventWire.toJson s)
  | .bytes bs => variant "Bytes" (EventWire.toJson bs)

/-- The value of the named kind. -/
def Value.ofKind? (kind : String) (content : Json) : Option Value :=
  match kind with
  | "Byte" => (EventWire.ofJson? content).map (.scalar <| .byte ·)
  | "Int16" => (EventWire.ofJson? content).map (.scalar <| .int16 ·)
  | "Int32" => (EventWire.ofJson? content).map (.scalar <| .int32 ·)
  | "Float32" => (EventWire.ofJson? content).map (.scalar <| .float32 ·)
  | "Float64" => (EventWire.ofJson? content).map (.scalar <| .float64 ·)
  | "Str" => (EventWire.ofJson? content).map .string
  | "Bytes" => (EventWire.ofJson? content).map .bytes
  | _ => none

instance : JsonForm Value where
  toJson := Value.toJson
  ofJson? document := variant? document >>= fun (kind, content) => Value.ofKind? kind content

/-- The name and value of a record's field. -/
def Record.entryOfMember? (member : Json.Literal × Json) : Option (String × Value) := do
  let name ← member.1
  let value ← ofJson? member.2
  some (name, value)

/-- A record is an object; of several members with one name the last counts. -/
instance : JsonForm Record where
  toJson record := .record (record.entries.map fun (name, value) => (name, toJson value))
  ofJson?
    | .object members => (members.mapM Record.entryOfMember?).map Record.ofList
    | _ => none

/-! ## Events -/

instance : JsonForm Field where
  toJson field := .record [("name", toJson field.name), ("type", toJson field.type)]
  ofJson? document :=
    match fields? ["name", "type"] none document with
    | some [name, type] => do some ⟨← ofJson? name, ← ofJson? type⟩
    | _ => none

instance : JsonForm Event where
  toJson event := .record
    [("id", toJson event.id), ("name", toJson event.name), ("fields", toJson event.fields)]
  ofJson? document :=
    match fields? ["id", "name", "fields"] none document with
    | some [id, name, fields] => do some ⟨← ofJson? id, ← ofJson? name, ← ofJson? fields⟩
    | _ => none

/-- The event that a text stands for, its names and the order of its fields unchecked. -/
def Event.ofText? (s : String) : Option Event := deserialize? Event s

instance : JsonForm Fingerprint where
  toJson fingerprint := toJson fingerprint.value
  ofJson? document := (ofJson? document).map Fingerprint.mk

/-! ## Settings -/

instance : JsonForm RegistrySettings where
  toJson settings := .record
    [("typecheck", toJson settings.typecheck),
      ("max_compact_events", toJson settings.maxCompactEvents)]
  ofJson? document :=
    match fields? ["typecheck", "max_compact_events"] none document with
    | some [typecheck, limit] => do some ⟨← ofJson? typecheck, ← ofJson? limit⟩
    | _ => none

/-- The limit may be left out for none. -/
instance : JsonForm FramerSettings where
  toJson settings := .record [("max_pending_bytes", toJson settings.maxPending)]
  ofJson? document :=
    match fields? ["max_pending_bytes"] (some .null) document with
    | some [limit] => (ofJson? limit).map FramerSettings.mk
    | _ => none

instance : JsonForm Settings where
  toJson settings := .record
    [("registry", toJson settings.registry), ("framer", toJson settings.framer)]
  ofJson? document :=
    match fields? ["registry", "framer"] none document with
    | some [registry, framer] => do some ⟨← ofJson? registry, ← ofJson? framer⟩
    | _ => none

end EventWire
