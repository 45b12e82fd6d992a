/-
EventWire.Registry — the events of a protocol, and the codecs that go with them.

Events are added one by one (`Registry.define`) until the first codec is asked for. A codec is
compiled when it is first needed and remembered with its event; from then on the registry is frozen,
as records may already be under way in the old schema. So an operation that resolves a codec
answers with the registry after it. What is remembered is never observable but for the freezing.

* `eventOfId?`, `eventOfName?`, `events` — look-ups, which leave the registry as it is.
* `codecOfId?`, `codecOfName?`, `codecOfHeader?`, `compileAll` — these resolve codecs.
* `encode`, `decodeFirst`, `decode`, `reconstruct` — records by event name.
* `fingerprint` — the number that stands for all events.
-/
import EventWire.Codec
import EventWire.Fingerprint
import EventWire.Memo
import EventWire.Settings

namespace EventWire

/-- An event and its codec, once that has been asked for. -/
structure Registry.Entry (typecheck : Bool) where
  event : Event
  codec : Memo (Codec.compile event typecheck)

/-- The events of a protocol. -/
structure Registry where
  settings : RegistrySettings
  /-- The events, in the order of their definition. -/
  entries : List (Registry.Entry settings.typecheck)
  /-- The fingerprint, once it has been asked for. -/
  fingerprintMemo : Memo (Fingerprint.ofEvents (entries.map (·.event)))

namespace Registry

/-- A registry without events. -/
def ofSettings (settings : RegistrySettings) : Registry := ⟨settings, [], .empty⟩

instance : Inhabited Registry := ⟨ofSettings {}⟩

/-! ## Looking up events -/

/-- The events in the order of their definition. -/
def defined (registry : Registry) : List Event := registry.entries.map (·.event)

/-- The events by id. -/
def events (registry : Registry) : List Event := Fingerprint.sortById registry.defined

def size (registry : Registry) : Nat := registry.entries.length

def isEmpty (registry : Registry) : Bool := registry.entries.isEmpty

def eventOfId? (registry : Registry) (id : UInt32) : Option Event :=
  registry.defined.find? (·.id = id)

def eventOfName? (registry : Registry) (name : String) : Option Event :=
  registry.defined.find? (·.name = name)

/-- Whether a codec is in use, so that no event can be added any more. -/
def isFrozen (registry : Registry) : Bool := registry.entries.any (·.codec.isFull)

/-- The number of events with a one-byte header. -/
def compactCount (registry : Registry) : Nat := registry.defined.countP (!·.isExtended)

/-! ## Adding events -/

/-- Whether there is room for a checked event. The id is looked at before the name, and both
before the number of compact events. -/
def checkRoom (registry : Registry) (event : Event) : Except SchemaError Unit :=
  match registry.eventOfId? event.id with
  | some existing => .error (.duplicateId event.id existing.name)
  | none =>
    match registry.eventOfName? event.name with
    | some existing => .error (.duplicateName event.name existing.id)
    | none =>
      let limit := registry.settings.maxCompactEvents
      if !event.isExtended && limit ≤ registry.compactCount then .error (.tooManyEvents limit)
      else .ok ()

/-- The registry with one more event; nothing is known of its codec or of the new fingerprint. -/
def add (registry : Registry) (event : Event) : Registry where
  settings := registry.settings
  entries := registry.entries ++ [⟨event, .empty⟩]
  fingerprintMemo := .empty

/-- The registry with one more event. A frozen registry refuses all, before it looks at them. -/
def define (registry : Registry) (id : UInt32) (name : String) (fields : List Field) :
    Except SchemaError Registry :=
  if registry.isFrozen then .error (.frozen name)
  else do
    let event ← Event.define id name fields
    registry.checkRoom event
    .ok (registry.add event)

/-! ## Resolving codecs -/

/-- The entry with its codec remembered. -/
def Entry.compiled {typecheck : Bool} (entry : Entry typecheck) : Entry typecheck :=
  { entry with codec := entry.codec.fill }

/-- The first entry with a wanted event, and all entries after its codec has been resolved. -/
def resolveFirst {typecheck : Bool} (wanted : Event → Bool) :
    List (Entry typecheck) → Option (Event × Codec) × List (Entry typecheck)
  | [] => (none, [])
  | entry :: rest =>
    if wanted entry.event then (some (entry.event, entry.codec.get), entry.compiled :: rest)
    else
      let (found, rest) := resolveFirst wanted rest
      (found, entry :: rest)

theorem map_event_resolveFirst {typecheck : Bool} (wanted : Event → Bool)
    (entries : List (Entry typecheck)) :
    (resolveFirst wanted entries).2.map (·.event) = entries.map (·.event) := by
  induction entries with
  | nil => rfl
  | cons entry rest ih =>
    unfold resolveFirst
    split
    · rfl
    · simp [ih]

theorem map_event_compiled {typecheck : Bool} (entries : List (Entry typecheck)) :
    (entries.map Entry.compiled).map (·.event) = entries.map (·.event) := by
  rw [List.map_map]
  rfl

/-- The registry with other entries of the same events. -/
def withEntries (registry : Registry) (entries : List (Entry registry.settings.typecheck))
    (same : entries.map (·.event) = registry.entries.map (·.event)) : Registry where
  settings := registry.settings
  entries
  fingerprintMemo := registry.fingerprintMemo.cast (congrArg _ same.symm)

/-- The first wanted event and its codec, and the registry after the codec has been resolved. -/
def resolve (registry : Registry) (wanted : Event → Bool) : Option (Event × Codec) × Registry :=
  ((resolveFirst wanted registry.entries).1,
    registry.withEntries (resolveFirst wanted registry.entries).2 (map_event_resolveFirst ..))

/-- The event and codec that a header calls for. An id in the form of another kind of id calls
for none. -/
def resolveHeader (registry : Registry) (header : Header) : Option (Event × Codec) × Registry :=
  if header.isCanonical then registry.resolve (·.id = header.id) else (none, registry)

def codecOfId? (registry : Registry) (id : UInt32) : Option Codec × Registry :=
  let (found, after) := registry.resolve (·.id = id)
  (found.map (·.2), after)

def codecOfName? (registry : Registry) (name : String) : Option Codec × Registry :=
  let (found, after) := registry.resolve (·.name = name)
  (found.map (·.2), after)

def codecOfHeader? (registry : Registry) (header : Header) : Option Codec × Registry :=
  let (found, after) := registry.resolveHeader header
  (found.map (·.2), after)

/-- Resolves every codec; answers with the number of events. -/
def compileAll (registry : Registry) : Nat × Registry :=
  (registry.size,
    registry.withEntries (registry.entries.map Entry.compiled) (map_event_compiled ..))

/-- The fingerprint of all events, and the registry that remembers it. -/
def fingerprint (registry : Registry) : Fingerprint × Registry :=
  (registry.fingerprintMemo.get,
    { registry with fingerprintMemo := registry.fingerprintMemo.fill })

/-! ## Records by event -/

/-- The bytes of a record of the named event. -/
def encode (registry : Registry) (name : String) (record : Record) :
    Except CodecError Bytes × Registry :=
  match registry.codecOfName? name with
  | (some codec, after) => (codec.encode record, after)
  | (none, after) => (.error (.unknownEvent name), after)

/-- A record read from the start of some bytes. -/
structure Decoded where
  event : Event
  record : Record
  /-- The number of bytes it took. -/
  size : Nat
deriving DecidableEq

/-- What is said of a header that is cut short: no event is known yet. -/
def truncatedHeader (data : Bytes) : CodecError :=
  .truncated "<header>"
    (if data.isEmpty then HeaderForm.compact.width else HeaderForm.extended.width) data.length

/-- The record at the start of `data`. -/
def decodeFirst (registry : Registry) (data : Bytes) : Except CodecError Decoded × Registry :=
  match Header.read? data with
  | none => (.error (truncatedHeader data), registry)
  | some header =>
    match registry.resolveHeader header with
    | (none, after) => (.error (.unknownPacket header.id 0), after)
    | (some (event, codec), after) =>
      ((codec.decode data).map fun (record, size) => ⟨event, record, size⟩, after)

/-- The record at the start of `data` and the name of its event. -/
def decode (registry : Registry) (data : Bytes) : Except CodecError (String × Record) × Registry :=
  let (decoded, after) := registry.decodeFirst data
  (decoded.map fun first => (first.event.name, first.record), after)

/-- What a peer makes of a record. -/
def reconstruct (registry : Registry) (name : String) (record : Record) :
    Except CodecError (String × Record) × Registry :=
  match registry.encode name record with
  | (.ok bytes, after) => after.decode bytes
  | (.error error, after) => (.error error, after)

end Registry

end EventWire
