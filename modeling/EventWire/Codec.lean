/-
EventWire.Codec — records of one event to bytes and back.

`Codec.compile` works out once where each field lies; `Codec.encode` and `Codec.decode` then follow
the slots. A record's end is known from its first bytes alone (`Codec.extent`), which is what a
reader of a stream needs before the record has arrived.

With type checking, a value must have exactly its field's type. Without it, numbers are converted
(`Scalar.convert`), a text may stand for bytes, and bytes may stand for a text if they are UTF-8.
-/
import EventWire.Layout
import EventWire.Record

namespace EventWire

/-- The greatest length that a record or a dynamic field can declare. -/
def maxLength : Nat := UInt32.size - 1

/-- A static field and where it lies in the record. -/
structure StaticSlot where
  name : String
  type : ScalarType
  offset : Nat
deriving DecidableEq

/-- A dynamic field; where it lies depends on those before it. -/
structure DynamicSlot where
  name : String
  type : BlobType
deriving DecidableEq

/-- The way from records of one event to bytes and back. -/
structure Codec where
  id : UInt32
  name : String
  layout : Layout
  statics : List StaticSlot
  dynamics : List DynamicSlot
  /-- Whether a value must have exactly its field's type. -/
  typecheck : Bool
deriving DecidableEq

namespace Codec

/-! ## Compiling -/

/-- The static fields, one after the other from `offset` on. -/
def placeStatics (offset : Nat) : List Field → List StaticSlot
  | [] => []
  | field :: fields =>
    match field.type with
    | .scalar type => ⟨field.name, type, offset⟩ :: placeStatics (offset + type.width) fields
    | .blob _ => placeStatics offset fields

/-- The dynamic fields, in order. -/
def dynamicSlots (fields : List Field) : List DynamicSlot :=
  fields.filterMap fun field =>
    match field.type with
    | .scalar _ => none
    | .blob type => some ⟨field.name, type⟩

/-- The codec of an event. -/
def compile (event : Event) (typecheck : Bool) : Codec :=
  let layout := Layout.ofEvent event
  { id := event.id
    name := event.name
    layout
    statics := placeStatics layout.staticOffset event.fields
    dynamics := dynamicSlots event.fields
    typecheck }

/-! ## Encoding -/

variable (codec : Codec)

/-- The value under a field's name. -/
def valueOf (record : Record) (field : String) (expected : FieldType) : Except CodecError Value :=
  match record.get? field with
  | some value => .ok value
  | none => .error (.missingField codec.name field expected)

/-- A value of the wrong type. -/
def mismatch (field : String) (expected found : FieldType) : CodecError :=
  .fieldType codec.name (.mismatch field expected found)

/-- The scalar that a static field is written as. -/
def scalarOf (record : Record) (slot : StaticSlot) : Except CodecError Scalar := do
  match ← codec.valueOf record slot.name (.scalar slot.type) with
  | .scalar v =>
    if codec.typecheck ∧ v.type ≠ slot.type then
      .error (codec.mismatch slot.name (.scalar slot.type) (.scalar v.type))
    else .ok (v.convert slot.type)
  | value => .error (codec.mismatch slot.name (.scalar slot.type) value.type)

/-- The bytes of a value that suits a dynamic field. -/
def contentOf (slot : DynamicSlot) (value : Value) : Except CodecError Bytes :=
  let refused := .error (codec.mismatch slot.name (.blob slot.type) value.type)
  match slot.type, value with
  | .string, .string s => .ok (Utf8.encode s)
  | .bytes, .bytes bs => .ok bs
  | .bytes, .string s => if codec.typecheck then refused else .ok (Utf8.encode s)
  | .string, .bytes bs =>
    if codec.typecheck then refused
    else if (Utf8.decode? bs).isSome then .ok bs
    else .error (.fieldType codec.name (.notUtf8 slot.name (.blob slot.type)))
  | _, .scalar _ => refused

/-- The bytes that a dynamic field is written as, without their length. -/
def blobOf (record : Record) (slot : DynamicSlot) : Except CodecError Bytes := do
  let value ← codec.valueOf record slot.name (.blob slot.type)
  let content ← codec.contentOf slot value
  if maxLength < content.length then
    .error (.fieldTooLarge codec.name slot.name content.length maxLength)
  else .ok content

/-- The name of the last dynamic field, which is blamed when they are too large together. -/
def lastDynamic : String := (codec.dynamics.getLast?.map (·.name)).getD ""

/-- The size of a record's encoding. Static fields have no say in it and are not looked at. -/
def encodedLength (record : Record) : Except CodecError Nat :=
  match codec.layout.fixedSize? with
  | some size => .ok size
  | none => do
    let contents ← codec.dynamics.mapM (codec.blobOf record)
    let size := codec.layout.fixedPortion + contents.flatten.length
    if maxLength < size - codec.layout.headerWidth then
      .error (.fieldTooLarge codec.name codec.lastDynamic size maxLength)
    else .ok size

/-- A length, as it stands before a record or a dynamic field. -/
def lengthBytes (length : Nat) : Bytes := BigEndian.encode lengthWidth length

/-- The bytes of a record. -/
def encode (record : Record) : Except CodecError Bytes := do
  let size ← codec.encodedLength record
  let scalars ← codec.statics.mapM (codec.scalarOf record)
  let blobs ← codec.dynamics.mapM (codec.blobOf record)
  let declared :=
    if codec.layout.isFixedSize then [] else lengthBytes (size - codec.layout.headerWidth)
  .ok (codec.layout.form.write codec.id ++ declared ++ scalars.flatMap Scalar.encode ++
    blobs.flatMap fun content => lengthBytes content.length ++ content)

/-! ## Decoding -/

/-- What the first bytes of a record tell about its size. -/
inductive Extent where
  /-- More bytes are needed to tell. -/
  | undetermined
  /-- The declared length is too small for the event. -/
  | refused (error : CodecError)
  | known (size : Nat)
deriving DecidableEq

/-- The length that the record at the start of `data` declares. -/
def declared (data : Bytes) : Nat :=
  BigEndian.decode (data.slice codec.layout.headerWidth lengthWidth)

/-- What the start of `data` tells about the size of the record there. -/
def extent (data : Bytes) : Extent :=
  match codec.layout.fixedSize? with
  | some size => .known size
  | none =>
    if data.reaches codec.layout.staticOffset then
      match codec.layout.recordLength codec.name (codec.declared data) with
      | .ok size => .known size
      | .error error => .refused error
    else .undetermined

/-- A static field's value, read from its place in the record. -/
def readScalar (record : Bytes) (slot : StaticSlot) : Value :=
  .scalar (.decode slot.type (record.slice slot.offset slot.type.width))

/-- The static fields of a record. -/
def readStatics (record : Bytes) : Record :=
  .ofList (codec.statics.map fun slot => (slot.name, readScalar record slot))

/-- The value of a dynamic field with the given content. -/
def readBlob (slot : DynamicSlot) (content : Bytes) : Except CodecError Value :=
  match slot.type with
  | .bytes => .ok (.bytes content)
  | .string =>
    match Utf8.decode? content with
    | some s => .ok (.string s)
    | none => .error (.invalidUtf8 codec.name slot.name (Utf8.validUpTo content))

/-- Adds the dynamic fields to a record of `size` bytes. `rest` is what lies from `cursor` to the
record's end; the fields must fill it. -/
def readDynamics (size : Nat) :
    List DynamicSlot → (cursor : Nat) → (rest : Bytes) → Record → Except CodecError Record
  | [], cursor, rest, record =>
    if rest.isEmpty then .ok record
    else .error (.malformed codec.name s!"fields end at {cursor} but record length is {size}")
  | slot :: slots, cursor, rest, record =>
    if rest.reaches lengthWidth then
      let start := cursor + lengthWidth
      let length := BigEndian.decode (rest.take lengthWidth)
      let body : Bytes := rest.drop lengthWidth
      if body.reaches length then do
        let value ← codec.readBlob slot (body.take length)
        readDynamics size slots (start + length) (body.drop length) (record.insert slot.name value)
      else
        .error (.malformed codec.name
          s!"field '{slot.name}' declares {length} bytes at offset {start}, record ends at {size}")
    else
      .error (.malformed codec.name s!"length prefix of '{slot.name}' runs past record end {size}")

/-- The record that `bytes` are, from the first byte to the last. -/
def decodeWhole (bytes : Bytes) : Except CodecError Record :=
  let start := codec.layout.dynamicOffset
  codec.readDynamics bytes.length codec.dynamics start (bytes.drop start) (codec.readStatics bytes)

/-- The record at the start of `data` and its size. The header is taken for granted. -/
def decode (data : Bytes) : Except CodecError (Record × Nat) :=
  match codec.extent data with
  | .undetermined => .error (.truncated codec.name codec.layout.fixedPortion data.length)
  | .refused error => .error error
  | .known size =>
    if data.reaches size then (codec.decodeWhole (data.take size)).map (·, size)
    else .error (.truncated codec.name size data.length)

end Codec

end EventWire
