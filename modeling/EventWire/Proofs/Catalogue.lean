/-
EventWire.Proofs.Catalogue — what is found in a registry.

A registry is asked for events and codecs by id, by name and by header, and
for the list of all events. All of these are views of one list, that of the
accepted definitions (`Registry.Catalogues`): what has been accepted is found
under its id and under its name, with its codec, and nothing else is found.
This holds however the registry has been used, and of clones as well
(`Lineage.catalogues`).

A registry also keeps compiled codecs and its fingerprint. Its answers are
those of its schema, up to the order of the events
(`Registry.sameAnswers_of_alike`), so that nothing else that it remembers can
be told from them (`Lineage.replays`).

Ids and names have to be distinct for it, or the first of two would hide the
second. The ids of compact events are distinct bytes other than the marker,
which bounds their number whatever limit is set (`countP_compact_le`).
-/
import EventWire.Proofs.Canonical
import EventWire.Proofs.Lineage

namespace EventWire

/-! ## Events by id -/

theorem sortById_perm (events : List Event) : (Fingerprint.sortById events).Perm events :=
  List.mergeSort_perm events _

theorem Event.decide_id_le_trans (a b c : Event) :
    decide (a.id ≤ b.id) → decide (b.id ≤ c.id) → decide (a.id ≤ c.id) := by
  simpa using UInt32.le_trans

theorem Event.decide_id_le_total (a b : Event) :
    decide (a.id ≤ b.id) || decide (b.id ≤ a.id) := by
  simpa using UInt32.le_total a.id b.id

theorem pairwise_sortById (events : List Event) :
    (Fingerprint.sortById events).Pairwise (fun a b => a.id ≤ b.id) := by
  simpa [Fingerprint.sortById] using
    List.pairwise_mergeSort Event.decide_id_le_trans Event.decide_id_le_total events

/-- Distinct ids come in strictly ascending order. -/
theorem pairwise_lt_sortById {events : List Event} (hnodup : (events.map Event.id).Nodup) :
    (Fingerprint.sortById events).Pairwise (fun a b => a.id < b.id) := by
  have hsorted : ((Fingerprint.sortById events).map Event.id).Nodup :=
    ((sortById_perm events).map Event.id).nodup_iff.mpr hnodup
  have hne : (Fingerprint.sortById events).Pairwise (fun a b => a.id ≠ b.id) :=
    List.pairwise_map.mp hsorted
  refine (hne.and (pairwise_sortById events)).imp fun {a b} h => ?_
  exact UInt32.lt_of_le_of_ne h.2 h.1

theorem sortById_of_perm {events events' : List Event} (h : events.Perm events')
    (hnodup : (events.map Event.id).Nodup) :
    Fingerprint.sortById events = Fingerprint.sortById events' := by
  have hperm : (Fingerprint.sortById events).Perm (Fingerprint.sortById events') :=
    (sortById_perm events).trans (h.trans (sortById_perm events').symm)
  refine hperm.eq_of_pairwise ?_ (pairwise_sortById events) (pairwise_sortById events')
  intro a b ha hb hab hba
  have ha' : a ∈ events := (sortById_perm events).mem_iff.mp ha
  have hb' : b ∈ events := h.mem_iff.mpr ((sortById_perm events').mem_iff.mp hb)
  exact List.inj_on_of_nodup_map hnodup ha' hb' (UInt32.le_antisymm hab hba)

theorem Fingerprint.ofEvents_of_perm {events events' : List Event} (h : events.Perm events')
    (hnodup : (events.map Event.id).Nodup) : ofEvents events = ofEvents events' := by
  unfold ofEvents canonicalForm
  rw [sortById_of_perm h hnodup, h.length_eq]

theorem Event.isExtended_eq_false_iff {event : Event} :
    event.isExtended = false ↔ event.id ≤ maxCompactId :=
  decide_eq_false_iff_not.trans UInt32.not_lt

/-- There are no more compact events than bytes other than the marker. -/
theorem countP_compact_le {events : List Event} (hnodup : (events.map Event.id).Nodup) :
    events.countP (·.id ≤ maxCompactId) ≤ compactIdCount := by
  rw [List.countP_eq_length_filter]
  have hids : ((events.filter (·.id ≤ maxCompactId)).map (·.id.toNat)).Nodup := by
    have hmap : events.map (·.id.toNat) = (events.map Event.id).map UInt32.toNat := by
      rw [List.map_map]
      rfl
    have hnodup' : (events.map (·.id.toNat)).Nodup := by
      rw [hmap]
      exact hnodup.map fun a b h => UInt32.toNat_inj.mp h
    exact hnodup'.sublist (List.filter_sublist.map _)
  have hrange : (events.filter (·.id ≤ maxCompactId)).map (·.id.toNat) ⊆
      List.range compactIdCount := by
    intro n hn
    obtain ⟨event, hevent, rfl⟩ := List.mem_map.mp hn
    have hle : event.id ≤ maxCompactId := by simpa using (List.mem_filter.mp hevent).2
    exact List.mem_range.mpr (Nat.lt_succ_of_le (UInt32.le_iff_toNat_le.mp hle))
  simpa using (hids.subperm hrange).length_le

/-! ## Look-ups -/

namespace Registry

/-- What is found in a registry is what has been accepted. -/
structure Catalogues (registry : Registry) (accepted : List Event) : Prop where
  ids : (accepted.map Event.id).Nodup
  names : (accepted.map Event.name).Nodup
  /-- An event is found under its id, whatever the width of its header, and
  nothing else is. -/
  eventOfId : ∀ id event, registry.eventOfId? id = some event ↔ event ∈ accepted ∧ event.id = id
  eventOfName : ∀ name event,
    registry.eventOfName? name = some event ↔ event ∈ accepted ∧ event.name = name
  /-- Where an event is found, its codec is. -/
  codecOfId : ∀ id, (registry.codecOfId? id).1 = (registry.eventOfId? id).map registry.schema.codec
  codecOfName : ∀ name,
    (registry.codecOfName? name).1 = (registry.eventOfName? name).map registry.schema.codec
  /-- A header finds what its id finds, if it is in the form of its id. -/
  codecOfHeader : ∀ header, (registry.codecOfHeader? header).1 =
    if header.form = .ofId header.id then (registry.codecOfId? header.id).1 else none
  codec : ∀ event, (registry.schema.codec event).id = event.id ∧
    (registry.schema.codec event).name = event.name
  /-- All of them are listed once, by ascending ids. -/
  listed : registry.events.Perm accepted
  ascending : registry.events.Pairwise (fun a b => a.id < b.id)
  size : registry.size = accepted.length
  /-- Compact events are within the limit, and have bytes of their own. -/
  compact : accepted.countP (·.id ≤ maxCompactId) ≤
    min compactIdCount registry.settings.maxCompactEvents

variable {registry : Registry}

theorem resolve_codec (registry : Registry) (wanted : Event → Bool) :
    (registry.resolve wanted).1.map Prod.snd =
      (registry.defined.find? wanted).map registry.schema.codec := by
  rw [resolve_fst, Schema.resolve, Option.map_map]
  rfl

theorem codecOfId?_fst (registry : Registry) (id : UInt32) :
    (registry.codecOfId? id).1 = (registry.eventOfId? id).map registry.schema.codec :=
  registry.resolve_codec (·.id = id)

theorem codecOfName?_fst (registry : Registry) (name : String) :
    (registry.codecOfName? name).1 = (registry.eventOfName? name).map registry.schema.codec :=
  registry.resolve_codec (·.name = name)

theorem compactCount_eq (registry : Registry) :
    registry.compactCount = registry.defined.countP (·.id ≤ maxCompactId) := by
  refine congrArg registry.defined.countP (funext fun event => Bool.eq_iff_iff.mpr ?_)
  rw [Bool.not_eq_true', Event.isExtended_eq_false_iff, decide_eq_true_eq]

/-- What a sound registry catalogues is what it has defined. -/
theorem catalogues_defined (h : registry.schema.Sound) : registry.Catalogues registry.defined where
  ids := h.ids
  names := h.names
  eventOfId _ _ := find?_key_eq_some_iff h.ids
  eventOfName _ _ := find?_key_eq_some_iff h.names
  codecOfId := codecOfId?_fst registry
  codecOfName := codecOfName?_fst registry
  codecOfHeader header := by
    rw [codecOfHeader?_fst, codecOfId?_fst, Schema.resolveHeader, Header.isCanonical]
    by_cases hform : header.form = .ofId header.id
    · simp only [hform, decide_true, if_true, Schema.resolve, Option.map_map]
      rfl
    · simp [hform]
  codec _ := ⟨rfl, rfl⟩
  listed := sortById_perm registry.defined
  ascending := pairwise_lt_sortById h.ids
  size := by simp [size, defined]
  compact := by
    rw [← compactCount_eq]
    refine Nat.le_min.mpr ⟨?_, h.compact⟩
    rw [compactCount_eq]
    exact countP_compact_le h.ids

end Registry

/-! ## Answers -/

namespace Schema

/-- The same events, in any order, and the same codecs. -/
structure Alike (a b : Schema) : Prop where
  typecheck : a.settings.typecheck = b.settings.typecheck
  events : a.events.Perm b.events

variable {a b : Schema}

theorem Alike.codec (h : a.Alike b) : a.codec = b.codec := by
  funext event
  rw [Schema.codec, Schema.codec, h.typecheck]

/-- What is wanted by a key that tells all events apart is found wherever it
stands. -/
theorem Alike.resolve {β : Type} [DecidableEq β] {key : Event → β} (h : a.Alike b)
    (hnodup : (a.events.map key).Nodup) (k : β) :
    a.resolve (fun event => decide (key event = k)) =
      b.resolve (fun event => decide (key event = k)) := by
  unfold Schema.resolve
  rw [find?_key_of_perm h.events hnodup]
  simp only [h.codec]

theorem Alike.resolveHeader (h : a.Alike b) (hsound : a.Sound) (header : Header) :
    a.resolveHeader header = b.resolveHeader header := by
  unfold Schema.resolveHeader
  rw [h.resolve hsound.ids]

theorem Alike.encode (h : a.Alike b) (hsound : a.Sound) (name : String) (record : Record) :
    a.encode name record = b.encode name record := by
  unfold Schema.encode
  rw [h.resolve hsound.names]

theorem Alike.decodeFirst (h : a.Alike b) (hsound : a.Sound) (data : Bytes) :
    a.decodeFirst data = b.decodeFirst data := by
  unfold Schema.decodeFirst
  simp only [h.resolveHeader hsound]

end Schema

namespace Registry

/-- Two registries cannot be told apart by what they answer. -/
structure SameAnswers (a b : Registry) : Prop where
  size : a.size = b.size
  eventOfId : ∀ id, a.eventOfId? id = b.eventOfId? id
  eventOfName : ∀ name, a.eventOfName? name = b.eventOfName? name
  events : a.events = b.events
  fingerprint : a.fingerprint.1 = b.fingerprint.1
  codecOfId : ∀ id, (a.codecOfId? id).1 = (b.codecOfId? id).1
  codecOfName : ∀ name, (a.codecOfName? name).1 = (b.codecOfName? name).1
  codecOfHeader : ∀ header, (a.codecOfHeader? header).1 = (b.codecOfHeader? header).1
  encode : ∀ name record, (a.encode name record).1 = (b.encode name record).1
  decodeFirst : ∀ data, (a.decodeFirst data).1 = (b.decodeFirst data).1
  decode : ∀ data, (a.decode data).1 = (b.decode data).1
  reconstruct : ∀ name record, (a.reconstruct name record).1 = (b.reconstruct name record).1

variable {a b registry : Registry}

theorem fingerprint_fst (registry : Registry) :
    registry.fingerprint.1 = Fingerprint.ofEvents registry.defined :=
  registry.fingerprintMemo.get_eq

theorem decode_fst (registry : Registry) (data : Bytes) :
    (registry.decode data).1 =
      (registry.schema.decodeFirst data).map fun first => (first.event.name, first.record) := by
  rw [← decodeFirst_fst]
  rfl

theorem reconstruct_fst (registry : Registry) (name : String) (record : Record) :
    (registry.reconstruct name record).1 = (registry.schema.encode name record).bind fun bytes =>
      (registry.schema.decodeFirst bytes).map fun first => (first.event.name, first.record) := by
  have hbytes := encode_fst registry name record
  have hschema := schema_encode registry name record
  unfold reconstruct
  rcases hencode : registry.encode name record with ⟨encoded, after⟩
  rw [hencode] at hbytes hschema
  rw [← hbytes, ← hschema]
  cases encoded with
  | error error => rfl
  | ok bytes => exact decode_fst after bytes

/-- **The order of events leaves no trace** in what a registry answers. -/
theorem sameAnswers_of_alike (h : a.schema.Alike b.schema) (hsound : a.schema.Sound) :
    a.SameAnswers b where
  size := by
    have hlength : a.defined.length = b.defined.length := h.events.length_eq
    simpa [defined, Registry.size] using hlength
  eventOfId := find?_key_of_perm h.events hsound.ids
  eventOfName := find?_key_of_perm h.events hsound.names
  events := sortById_of_perm h.events hsound.ids
  fingerprint := by
    rw [fingerprint_fst, fingerprint_fst]
    exact Fingerprint.ofEvents_of_perm h.events hsound.ids
  codecOfId id := by
    have hfound : a.eventOfId? id = b.eventOfId? id := find?_key_of_perm h.events hsound.ids id
    rw [codecOfId?_fst, codecOfId?_fst, hfound, h.codec]
  codecOfName name := by
    have hfound : a.eventOfName? name = b.eventOfName? name :=
      find?_key_of_perm h.events hsound.names name
    rw [codecOfName?_fst, codecOfName?_fst, hfound, h.codec]
  codecOfHeader header := by
    rw [codecOfHeader?_fst, codecOfHeader?_fst, h.resolveHeader hsound]
  encode name record := by
    rw [encode_fst, encode_fst, h.encode hsound]
  decodeFirst data := by
    rw [decodeFirst_fst, decodeFirst_fst, h.decodeFirst hsound]
  decode data := by
    rw [decode_fst, decode_fst, h.decodeFirst hsound]
  reconstruct name record := by
    rw [reconstruct_fst, reconstruct_fst, h.encode hsound]
    simp only [h.decodeFirst hsound]

/-- What is remembered besides the schema leaves no trace either. -/
theorem sameAnswers_of_schema_eq (h : a.schema = b.schema) (hsound : a.schema.Sound) :
    a.SameAnswers b := by
  refine sameAnswers_of_alike ⟨by rw [h], ?_⟩ hsound
  rw [h]

end Registry

/-! ## Whatever has been done with it -/

namespace Lineage

variable {settings : RegistrySettings} {steps : List Step} {lineage : Lineage}

/-- What a registry has defined is what its history has accepted. -/
theorem forall₂_defined (hmem : lineage ∈ family settings steps) :
    lineage.registry.settings = settings ∧
      List.Forall₂ (fun definition event => definition.event = .ok event)
        ((Registry.ofSettings settings).accepted lineage.history) lineage.registry.defined := by
  obtain ⟨replayed, hreplayed, hsame⟩ := exists_replay_of_mem_family hmem
  obtain ⟨events, hschema, hgiven⟩ := Registry.schema_defineAll hreplayed
  have hevents : lineage.registry.defined = events :=
    (congrArg Schema.events hsame).trans (congrArg Schema.events hschema)
  rw [hevents]
  exact ⟨(congrArg Schema.settings hsame).trans (congrArg Schema.settings hschema), hgiven⟩

/-- **A registry catalogues what it has accepted**, and nothing else, however
it and the registries it is a clone of have been used. -/
theorem catalogues (hmem : lineage ∈ family settings steps) :
    lineage.registry.settings = settings ∧ ∃ events : List Event,
      List.Forall₂ (fun definition event => definition.event = .ok event)
        ((Registry.ofSettings settings).accepted lineage.history) events ∧
      lineage.registry.Catalogues events := by
  obtain ⟨hsettings, hgiven⟩ := forall₂_defined hmem
  exact ⟨hsettings, lineage.registry.defined, hgiven,
    Registry.catalogues_defined (sound hmem)⟩

/-- Two registries, the second a clone of the first. Each is refused a
definition, the first for an id that is taken, the clone since a record
without its field has asked it for a codec. -/
def chatSteps : List Step :=
  [.use 0 (.perform (.define 300 "chat" [⟨"text", .blob .string⟩])),
    .use 0 (.perform (.define 7 "say" [])),
    .use 0 (.perform (.define 7 "shout" [])),
    .use 0 (.perform .fingerprint),
    .clone 0,
    .use 1 (.perform (.encode "chat" .empty)),
    .use 1 (.perform (.define 8 "late" [])),
    .use 0 (.perform (.define 8 "more" []))]

/-- The definitions that the clone and, before it, the first have accepted. -/
def chatDefinitions : List Definition :=
  [⟨300, "chat", [⟨"text", .blob .string⟩]⟩, ⟨7, "say", []⟩]

def chatClone : Lineage :=
  ((family {} chatSteps)[1]?).getD ⟨.ofSettings {}, []⟩

theorem chatClone_mem : chatClone ∈ family {} chatSteps :=
  List.mem_of_getElem? (i := 1) rfl

theorem chatClone_spec : chatClone.registry.isFrozen ∧
    (Registry.ofSettings {}).accepted chatClone.history = chatDefinitions := by cbv

theorem catalogues_chatClone : chatClone ∈ family {} chatSteps ∧
    chatClone.registry.settings = {} ∧ ∃ events : List Event,
      List.Forall₂ (fun definition event => definition.event = .ok event)
        chatDefinitions events ∧
      chatClone.registry.Catalogues events := by
  have h := catalogues chatClone_mem
  rw [chatClone_spec.2] at h
  exact ⟨chatClone_mem, h⟩

/-- **Nothing that is remembered shows.** However a registry and those it is a
clone of have been used, it answers as one that has only been given the
accepted definitions: codecs that are compiled or not, fingerprints that were
asked for before, refusals and clones make no difference. What shows is
whether it is frozen, which it is exactly if the codec of a defined event has
ever been asked for. From then on it refuses all definitions, and its answers
stay as they are. -/
theorem replays (hmem : lineage ∈ family settings steps) :
    (∃ replayed, (Registry.ofSettings settings).defineAll
          ((Registry.ofSettings settings).accepted lineage.history) = .ok replayed ∧
        lineage.registry.SameAnswers replayed) ∧
      (lineage.registry.isFrozen ↔
        (Registry.ofSettings settings).EverAsked lineage.history) ∧
      (lineage.registry.isFrozen → ∀ uses : List Registry.Use,
        (lineage.registry.afterAll uses).isFrozen ∧
        (∀ id name fields, (lineage.registry.afterAll uses).define id name fields =
          .error (.frozen name)) ∧
        lineage.registry.SameAnswers (lineage.registry.afterAll uses)) := by
  have hsound := sound hmem
  obtain ⟨replayed, hreplayed, hschema⟩ := exists_replay_of_mem_family hmem
  refine ⟨⟨replayed, hreplayed, ?_⟩, ?_, ?_⟩
  · exact Registry.sameAnswers_of_schema_eq hschema hsound
  · have htraces : lineage.registry = _ := traces_of_mem_family hmem
    rw [htraces, Registry.isFrozen_afterAll]
    exact or_iff_right Bool.false_ne_true
  · intro hfrozen uses
    obtain ⟨hstill, hkept⟩ := Registry.schema_afterAll_of_isFrozen hfrozen uses
    refine ⟨hstill, fun id name fields => ?_, ?_⟩
    · exact Registry.define_of_isFrozen hstill
    · exact Registry.sameAnswers_of_schema_eq hkept.symm hsound

theorem replays_chatClone : chatClone ∈ family {} chatSteps ∧
    chatClone.registry.isFrozen ∧
    (∃ replayed, (Registry.ofSettings {}).defineAll chatDefinitions = .ok replayed ∧
      chatClone.registry.SameAnswers replayed) ∧
    ∀ uses : List Registry.Use,
      (chatClone.registry.afterAll uses).isFrozen ∧
      (∀ id name fields, (chatClone.registry.afterAll uses).define id name fields =
        .error (.frozen name)) ∧
      chatClone.registry.SameAnswers (chatClone.registry.afterAll uses) := by
  obtain ⟨hfrozen, haccepted⟩ := chatClone_spec
  obtain ⟨hreplayed, -, hkept⟩ := replays chatClone_mem
  rw [haccepted] at hreplayed
  exact ⟨chatClone_mem, hfrozen, hreplayed, hkept hfrozen⟩

end Lineage

end EventWire
