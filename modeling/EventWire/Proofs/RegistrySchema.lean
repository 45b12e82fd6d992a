/-
EventWire.Proofs.RegistrySchema — what a registry answers depends on its
settings and events alone.

A registry also remembers codecs and a fingerprint. None of it is ever
observable but for the freezing: an operation that resolves a codec answers
what the schema answers, and leaves a registry of the same schema
(`encode_fst`, `schema_encode` and their likes). So runs over one registry
are runs over one schema, however the operations follow one another.

* `Schema` — settings and events, without what is remembered.
* `Schema.Sound` — what is true of every schema that comes about:
  ids and names are distinct, events are those of accepted definitions, and
  the number of compact ones is within its limit.
* `Registry.Reachable` — the registries that come about by operations, in
  any order, refused ones included. They are sound (`Reachable.sound`).
-/
import EventWire.Registry
import EventWire.Proofs.FieldImage
import EventWire.Proofs.WireOrder

namespace EventWire

/-- What is observable of a registry, but for the freezing. -/
structure Schema where
  settings : RegistrySettings
  /-- The events, in the order of their definition. -/
  events : List Event

namespace Schema

variable (schema : Schema)

def codec (event : Event) : Codec := .compile event schema.settings.typecheck

/-- The first wanted event and its codec. -/
def resolve (wanted : Event → Bool) : Option (Event × Codec) :=
  (schema.events.find? wanted).map fun event => (event, schema.codec event)

/-- The event and codec that a header calls for. -/
def resolveHeader (header : Header) : Option (Event × Codec) :=
  if header.isCanonical then schema.resolve (·.id = header.id) else none

def encode (name : String) (record : Record) : Except CodecError Bytes :=
  match schema.resolve (·.name = name) with
  | some (_, codec) => codec.encode record
  | none => .error (.unknownEvent name)

def decodeFirst (data : Bytes) : Except CodecError Registry.Decoded :=
  match Header.read? data with
  | none => .error (Registry.truncatedHeader data)
  | some header =>
    match schema.resolveHeader header with
    | none => .error (.unknownPacket header.id 0)
    | some (event, codec) => (codec.decode data).map fun (record, size) => ⟨event, record, size⟩

end Schema

/-! ## What is remembered is not observable -/

namespace Registry

variable {registry : Registry}

def schema (registry : Registry) : Schema := ⟨registry.settings, registry.defined⟩

theorem resolveFirst_fst {typecheck : Bool} (wanted : Event → Bool)
    (entries : List (Entry typecheck)) :
    (resolveFirst wanted entries).1 =
      ((entries.map (·.event)).find? wanted).map fun event =>
        (event, Codec.compile event typecheck) := by
  induction entries with
  | nil => rfl
  | cons entry rest ih =>
    unfold resolveFirst
    split
    · rename_i hwanted
      simp [hwanted]
    · rename_i hother
      simp [hother, ih]

@[simp] theorem resolve_fst (registry : Registry) (wanted : Event → Bool) :
    (registry.resolve wanted).1 = registry.schema.resolve wanted :=
  resolveFirst_fst wanted registry.entries

@[simp] theorem schema_withEntries (entries : List (Entry registry.settings.typecheck))
    (same : entries.map (·.event) = registry.entries.map (·.event)) :
    (registry.withEntries entries same).schema = registry.schema :=
  congrArg (Schema.mk registry.settings) same

@[simp] theorem schema_resolve (registry : Registry) (wanted : Event → Bool) :
    (registry.resolve wanted).2.schema = registry.schema :=
  schema_withEntries _ (map_event_resolveFirst ..)

@[simp] theorem resolveHeader_fst (registry : Registry) (header : Header) :
    (registry.resolveHeader header).1 = registry.schema.resolveHeader header := by
  unfold resolveHeader Schema.resolveHeader
  split
  · exact resolve_fst ..
  · rfl

@[simp] theorem schema_resolveHeader (registry : Registry) (header : Header) :
    (registry.resolveHeader header).2.schema = registry.schema := by
  unfold resolveHeader
  split
  · exact schema_resolve ..
  · rfl

@[simp] theorem schema_codecOfId? (registry : Registry) (id : UInt32) :
    (registry.codecOfId? id).2.schema = registry.schema :=
  schema_resolve ..

@[simp] theorem schema_codecOfName? (registry : Registry) (name : String) :
    (registry.codecOfName? name).2.schema = registry.schema :=
  schema_resolve ..

@[simp] theorem codecOfHeader?_fst (registry : Registry) (header : Header) :
    (registry.codecOfHeader? header).1 =
      (registry.schema.resolveHeader header).map Prod.snd := by
  rw [← resolveHeader_fst]
  rfl

@[simp] theorem schema_codecOfHeader? (registry : Registry) (header : Header) :
    (registry.codecOfHeader? header).2.schema = registry.schema :=
  schema_resolveHeader ..

@[simp] theorem schema_compileAll (registry : Registry) :
    registry.compileAll.2.schema = registry.schema :=
  schema_withEntries _ (map_event_compiled ..)

@[simp] theorem schema_fingerprint (registry : Registry) :
    registry.fingerprint.2.schema = registry.schema :=
  rfl

@[simp] theorem encode_fst (registry : Registry) (name : String) (record : Record) :
    (registry.encode name record).1 = registry.schema.encode name record := by
  have hresolved := resolve_fst registry (·.name = name)
  unfold encode codecOfName? Schema.encode
  rcases hfound : registry.resolve (·.name = name) with ⟨found, after⟩
  rw [hfound] at hresolved
  rw [← hresolved]
  cases found <;> rfl

@[simp] theorem schema_encode (registry : Registry) (name : String) (record : Record) :
    (registry.encode name record).2.schema = registry.schema := by
  have hafter := schema_codecOfName? registry name
  unfold encode
  split
  · rename_i hfound
    rwa [hfound] at hafter
  · rename_i hfound
    rwa [hfound] at hafter

@[simp] theorem decodeFirst_fst (registry : Registry) (data : Bytes) :
    (registry.decodeFirst data).1 = registry.schema.decodeFirst data := by
  unfold decodeFirst Schema.decodeFirst
  cases Header.read? data with
  | none => rfl
  | some header =>
    have hresolved := resolveHeader_fst registry header
    dsimp only
    rcases hfound : registry.resolveHeader header with ⟨found, after⟩
    rw [hfound] at hresolved
    rw [← hresolved]
    cases found <;> rfl

@[simp] theorem schema_decodeFirst (registry : Registry) (data : Bytes) :
    (registry.decodeFirst data).2.schema = registry.schema := by
  unfold decodeFirst
  cases Header.read? data with
  | none => rfl
  | some header =>
    have hafter := schema_resolveHeader registry header
    dsimp only
    rcases hfound : registry.resolveHeader header with ⟨found, after⟩
    rw [hfound] at hafter
    cases found <;> exact hafter

@[simp] theorem schema_decode (registry : Registry) (data : Bytes) :
    (registry.decode data).2.schema = registry.schema :=
  schema_decodeFirst ..

@[simp] theorem schema_reconstruct (registry : Registry) (name : String) (record : Record) :
    (registry.reconstruct name record).2.schema = registry.schema := by
  have hafter := schema_encode registry name record
  unfold reconstruct
  split
  · rename_i hencoded
    rw [hencoded] at hafter
    rw [schema_decode]
    exact hafter
  · rename_i hencoded
    rwa [hencoded] at hafter

end Registry

/-! ## Sound schemas -/

/-- Among things of distinct keys, the first with a key is the one with it. -/
theorem find?_key_eq_some_iff {α β : Type} [DecidableEq β] {key : α → β} {xs : List α}
    (hnodup : (xs.map key).Nodup) {k : β} {x : α} :
    xs.find? (fun x => decide (key x = k)) = some x ↔ x ∈ xs ∧ key x = k := by
  constructor
  · intro h
    exact ⟨List.mem_of_find?_eq_some h, by simpa using List.find?_some h⟩
  · intro h
    obtain ⟨hmem, hkey⟩ := h
    cases hfound : xs.find? (fun x => decide (key x = k)) with
    | none =>
      have hnone := List.find?_eq_none.mp hfound x hmem
      simp [hkey] at hnone
    | some other =>
      have hother : key other = k := by simpa using List.find?_some hfound
      have hsame : other = x := List.inj_on_of_nodup_map hnodup
        (List.mem_of_find?_eq_some hfound) hmem (hother.trans hkey.symm)
      rw [hsame]

namespace Schema

/-- Ids and names are distinct, events are those of accepted definitions, and
the compact ones are not too many. -/
structure Sound (schema : Schema) : Prop where
  ids : (schema.events.map Event.id).Nodup
  names : (schema.events.map Event.name).Nodup
  defined : ∀ event ∈ schema.events, ∃ fields,
    Event.define event.id event.name fields = .ok event
  compact : schema.events.countP (!·.isExtended) ≤ schema.settings.maxCompactEvents

variable {schema : Schema}

theorem sound_empty (settings : RegistrySettings) : Sound ⟨settings, []⟩ where
  ids := .nil
  names := .nil
  defined := by simp
  compact := Nat.zero_le _

/-- A new event keeps a schema sound if its id and name are new, and so does
its place among the compact ones if it needs one. -/
theorem Sound.add (h : schema.Sound) {event : Event} {fields : List Field}
    (hdefined : Event.define event.id event.name fields = .ok event)
    (hid : event.id ∉ schema.events.map Event.id)
    (hname : event.name ∉ schema.events.map Event.name)
    (hroom : event.isExtended = false →
      schema.events.countP (!·.isExtended) < schema.settings.maxCompactEvents) :
    Sound ⟨schema.settings, schema.events ++ [event]⟩ where
  ids := by
    rw [List.map_append, List.map_singleton]
    exact List.nodup_append.mpr ⟨h.ids, List.nodup_singleton _, by simpa using hid⟩
  names := by
    rw [List.map_append, List.map_singleton]
    exact List.nodup_append.mpr ⟨h.names, List.nodup_singleton _, by simpa using hname⟩
  defined := by
    intro other hother
    rcases List.mem_append.mp hother with hold | hnew
    · exact h.defined other hold
    · obtain rfl := List.mem_singleton.mp hnew
      exact ⟨fields, hdefined⟩
  compact := by
    have hcompact := h.compact
    cases hextended : event.isExtended with
    | true => simpa [hextended] using hcompact
    | false =>
      have := hroom hextended
      simp only [List.countP_append, List.countP_singleton, hextended]
      simp only [Bool.not_false, if_true]
      omega

theorem Sound.nodup_names (h : schema.Sound) {event : Event} (hmem : event ∈ schema.events) :
    (event.fields.map Field.name).Nodup := by
  obtain ⟨fields, hdefined⟩ := h.defined event hmem
  exact Event.nodup_names_of_define hdefined

theorem resolve_eq_some {wanted : Event → Bool} {event : Event} {codec : Codec}
    (h : schema.resolve wanted = some (event, codec)) :
    event ∈ schema.events ∧ wanted event ∧ codec = schema.codec event := by
  obtain ⟨found, hfound, hpair⟩ := Option.map_eq_some_iff.mp h
  cases hpair
  exact ⟨List.mem_of_find?_eq_some hfound, List.find?_some hfound, rfl⟩

/-- Each event of a sound schema is the one of its id. -/
theorem Sound.resolve_id (h : schema.Sound) {event : Event} (hmem : event ∈ schema.events) :
    schema.resolve (·.id = event.id) = some (event, schema.codec event) := by
  unfold resolve
  rw [(find?_key_eq_some_iff h.ids).mpr ⟨hmem, rfl⟩]
  rfl

/-- Each event of a sound schema is the one of its name. -/
theorem Sound.resolve_name (h : schema.Sound) {event : Event} (hmem : event ∈ schema.events) :
    schema.resolve (·.name = event.name) = some (event, schema.codec event) := by
  unfold resolve
  rw [(find?_key_eq_some_iff h.names).mpr ⟨hmem, rfl⟩]
  rfl

end Schema

/-! ## Reachable registries -/

namespace Registry

variable {registry after : Registry}

theorem checkRoom_eq_ok_iff {event : Event} :
    registry.checkRoom event = .ok () ↔
      event.id ∉ registry.defined.map Event.id ∧ event.name ∉ registry.defined.map Event.name ∧
        (event.isExtended = false →
          registry.compactCount < registry.settings.maxCompactEvents) := by
  unfold checkRoom
  split
  · rename_i existing hfound
    have hid : existing.id = event.id := by simpa using List.find?_some hfound
    have hmem : event.id ∈ registry.defined.map Event.id :=
      List.mem_map.mpr ⟨existing, List.mem_of_find?_eq_some hfound, hid⟩
    simp [hmem]
  · rename_i hid
    have hid : event.id ∉ registry.defined.map Event.id := by
      simpa [eventOfId?] using hid
    split
    · rename_i existing hfound
      have hname : existing.name = event.name := by simpa using List.find?_some hfound
      have hmem : event.name ∈ registry.defined.map Event.name :=
        List.mem_map.mpr ⟨existing, List.mem_of_find?_eq_some hfound, hname⟩
      simp [hmem]
    · rename_i hname
      have hname : event.name ∉ registry.defined.map Event.name := by
        simpa [eventOfName?] using hname
      simp [hid, hname]

/-- An accepted definition finds the registry in use by no codec, and adds an
event that there is room for. -/
theorem define_eq_ok_iff {id : UInt32} {name : String} {fields : List Field} :
    registry.define id name fields = .ok after ↔
      registry.isFrozen = false ∧ ∃ event, Event.define id name fields = .ok event ∧
        registry.checkRoom event = .ok () ∧ registry.add event = after := by
  unfold define
  cases registry.isFrozen with
  | true => simp
  | false =>
    have hunit (event : Event) :
        (∃ room, registry.checkRoom event = .ok room) ↔ registry.checkRoom event = .ok () :=
      ⟨fun ⟨_, h⟩ => h, fun h => ⟨(), h⟩⟩
    simp [bind_eq_ok_iff, hunit]

theorem schema_add (registry : Registry) (event : Event) :
    (registry.add event).schema = ⟨registry.settings, registry.defined ++ [event]⟩ := by
  simp [schema, add, defined]

@[simp] theorem defined_add (registry : Registry) (event : Event) :
    (registry.add event).defined = registry.defined ++ [event] :=
  congrArg Schema.events (schema_add registry event)

/-- What can be asked of a registry. -/
inductive Operation where
  | define (id : UInt32) (name : String) (fields : List Field)
  | codecOfId (id : UInt32)
  | codecOfName (name : String)
  | codecOfHeader (header : Header)
  | compileAll
  | fingerprint
  | encode (name : String) (record : Record)
  | decodeFirst (data : Bytes)
  | decode (data : Bytes)
  | reconstruct (name : String) (record : Record)

/-- The registry after an operation. A refused definition leaves it as it
was. -/
def perform (registry : Registry) : Operation → Registry
  | .define id name fields => (registry.define id name fields).toOption.getD registry
  | .codecOfId id => (registry.codecOfId? id).2
  | .codecOfName name => (registry.codecOfName? name).2
  | .codecOfHeader header => (registry.codecOfHeader? header).2
  | .compileAll => registry.compileAll.2
  | .fingerprint => registry.fingerprint.2
  | .encode name record => (registry.encode name record).2
  | .decodeFirst data => (registry.decodeFirst data).2
  | .decode data => (registry.decode data).2
  | .reconstruct name record => (registry.reconstruct name record).2

/-- A registry that comes about by operations. -/
inductive Reachable : Registry → Prop
  | created (settings : RegistrySettings) : Reachable (ofSettings settings)
  | performed {registry : Registry} (h : Reachable registry) (operation : Operation) :
      Reachable (registry.perform operation)

theorem sound_define {id : UInt32} {name : String} {fields : List Field}
    (h : registry.schema.Sound) (hdefine : registry.define id name fields = .ok after) :
    after.schema.Sound := by
  obtain ⟨-, event, hevent, hroom, rfl⟩ := define_eq_ok_iff.mp hdefine
  obtain ⟨hid, hname, hcompact⟩ := checkRoom_eq_ok_iff.mp hroom
  obtain ⟨rfl, rfl⟩ := Event.id_name_of_define hevent
  rw [schema_add]
  exact h.add hevent hid hname hcompact

/-- Every operation keeps a schema sound: a definition is checked, and the
others leave the schema as it is. -/
theorem sound_perform (h : registry.schema.Sound) (operation : Operation) :
    (registry.perform operation).schema.Sound := by
  cases operation with
  | define id name fields =>
    show ((registry.define id name fields).toOption.getD registry).schema.Sound
    cases hdefine : registry.define id name fields with
    | error error => exact h
    | ok after => exact sound_define h hdefine
  | _ => simpa [perform] using h

/-- **Reachable registries are sound.** -/
theorem Reachable.sound (h : Reachable registry) : registry.schema.Sound := by
  induction h with
  | created settings => exact Schema.sound_empty settings
  | performed _ operation ih => exact sound_perform ih operation

end Registry

end EventWire
