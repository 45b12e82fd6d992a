/-
EventWire.Proofs.TableCatalogue — what tables have to tell after any history.

What a registry catalogues, and what it answers, is told of the events in it
(`Registry.Catalogues`, `Registry.SameAnswers`). Tables do not look through their events.
They go by an index to a row, by the row to a cell, and by a mark to a refusal, and all of
these were written at different times, by definitions and by look-ups. So here the same is
told of the indexes, the cells and the mark themselves: an index has the row of the event
that was accepted, a cell has what would be worked out, and the mark is set if a cell of
a row is full (`Tables.Catalogues`).

It comes of the registry that the tables hold (`Tables.Holds.catalogue`,
`Tables.Holds.sameAnswers`). Since ids are distinct, and names as well, the place of a key
among the events is the place of its only event (`Registry.placeOf?_eq_some_iff`).
-/
import EventWire.Proofs.TableHistory

namespace EventWire

/-! ## Indexes, cells and the mark -/

/-- Among events of distinct keys, the place of a key is that of the event with it. -/
theorem Registry.placeOf?_eq_some_iff {registry : Registry} {β : Type} [DecidableEq β]
    {key : Event → β} (hnodup : (registry.defined.map key).Nodup) {k : β} {row : Nat} :
    registry.placeOf? (fun event => decide (key event = k)) = some row ↔
      ∃ event, registry.defined[row]? = some event ∧ key event = k := by
  rw [placeOf?, List.findIdx?_eq_some_iff_getElem]
  constructor
  · rintro ⟨hrow, hkey, -⟩
    exact ⟨_, List.getElem?_eq_getElem hrow, by simpa using hkey⟩
  · rintro ⟨event, hevent, rfl⟩
    obtain ⟨hrow, rfl⟩ := List.getElem?_eq_some_iff.mp hevent
    refine ⟨hrow, by simp, fun earlier hearlier hsame => ?_⟩
    have hkey : key registry.defined[earlier] = key registry.defined[row] := by simpa using hsame
    have hevents : registry.defined[earlier] = registry.defined[row] :=
      List.inj_on_of_nodup_map hnodup (List.getElem_mem _) (List.getElem_mem _) hkey
    have hplaces : earlier = row := (List.Nodup.of_map key hnodup).getElem_inj_iff.mp hevents
    omega

namespace Tables

variable {tables : Tables} {registry : Registry}

/-- The events by id. -/
def events (tables : Tables) : List Event :=
  Fingerprint.sortById (tables.rows.toList.map (·.event))

/-- The codec that is compiled for an event. -/
def codec (tables : Tables) (event : Event) : Codec := .compile event tables.settings.typecheck

/-- What is found in tables is what has been accepted. -/
structure Catalogues (tables : Tables) (accepted : List Event) : Prop where
  rows : tables.rows.toList.map (·.event) = accepted
  ids : (accepted.map Event.id).Nodup
  names : (accepted.map Event.name).Nodup
  /-- The place of a compact id has the row of the event with the id. -/
  compact : ∀ id ≤ maxCompactId, ∀ row, tables.compact[id.toNat]? = some (some row) ↔
    ∃ event : Event, accepted[row]? = some event ∧ event.id = id
  extended : ∀ id, maxCompactId < id → ∀ row, tables.extended[id]? = some row ↔
    ∃ event : Event, accepted[row]? = some event ∧ event.id = id
  byName : ∀ name row, tables.byName[name]? = some row ↔
    ∃ event : Event, accepted[row]? = some event ∧ event.name = name
  compactCount : tables.compactCount = accepted.countP (·.id ≤ maxCompactId)
  compactCount_le : tables.compactCount ≤ min compactIdCount tables.settings.maxCompactEvents
  /-- No cell is stale. -/
  cells : ∀ event codec, ⟨event, some codec⟩ ∈ tables.rows → codec = tables.codec event
  fingerprintCell : ∀ fingerprint, tables.fingerprintCell = some fingerprint →
    fingerprint = .ofEvents accepted
  /-- The mark is set if a cell is full, and only then. -/
  frozen : tables.frozen ↔ ∃ event codec, ⟨event, some codec⟩ ∈ tables.rows
  eventOfId : ∀ id event, tables.eventOfId? id = some event ↔ event ∈ accepted ∧ event.id = id
  eventOfName : ∀ name event,
    tables.eventOfName? name = some event ↔ event ∈ accepted ∧ event.name = name
  codecOfId : ∀ id, (codecOfId? id tables).1 = (tables.eventOfId? id).map tables.codec
  codecOfName : ∀ name, (codecOfName? name tables).1 = (tables.eventOfName? name).map tables.codec
  codecOfHeader : ∀ header, (codecOfHeader? header tables).1 =
    if header.form = .ofId header.id then (codecOfId? header.id tables).1 else none
  listed : tables.events.Perm accepted
  ascending : tables.events.Pairwise (fun a b => a.id < b.id)

theorem Holds.mem_rows_iff (h : tables.Holds registry) {event : Event} {codec : Codec} :
    ⟨event, some codec⟩ ∈ tables.rows ↔
      ∃ entry ∈ registry.entries, entry.event = event ∧ entry.codec.stored? = some codec := by
  rw [← Array.mem_toList_iff, h.rows, List.mem_map]
  simp only [Row.of, Row.mk.injEq]

theorem Holds.codec (h : tables.Holds registry) : tables.codec = registry.schema.codec := by
  funext event
  rw [Tables.codec, Schema.codec, h.settings]
  rfl

/-- **Tables catalogue** what the registry that they hold has defined. -/
theorem Holds.catalogue (h : tables.Holds registry) (hsound : registry.schema.Sound) :
    tables.Catalogues registry.defined := by
  have hc := Registry.catalogues_defined hsound
  exact {
    rows := h.defined
    ids := hsound.ids
    names := hsound.names
    compact := by
      intro id hid row
      have hplace := h.rowOfId id
      rw [rowOfId?, dif_pos hid] at hplace
      rw [Vector.getElem?_eq_getElem (toNat_lt_compactIdCount hid), Option.some.injEq, hplace]
      exact Registry.placeOf?_eq_some_iff hsound.ids
    extended := by
      intro id hid row
      have hplace := h.rowOfId id
      rw [rowOfId?, dif_neg (UInt32.not_le.mpr hid)] at hplace
      rw [hplace]
      exact Registry.placeOf?_eq_some_iff hsound.ids
    byName := by
      intro name row
      have hplace := h.rowOfName name
      rw [rowOfName?] at hplace
      rw [hplace]
      exact Registry.placeOf?_eq_some_iff hsound.names
    compactCount := by
      rw [h.compactCount, Registry.compactCount_eq]
    compactCount_le := by
      rw [h.compactCount, Registry.compactCount_eq, h.settings]
      exact hc.compact
    cells := by
      intro event codec hrow
      obtain ⟨entry, -, rfl, hcell⟩ := h.mem_rows_iff.mp hrow
      rw [h.codec]
      exact Memo.eq_of_stored? hcell
    fingerprintCell := by
      intro fingerprint hcell
      rw [h.fingerprintCell] at hcell
      exact Memo.eq_of_stored? hcell
    frozen := by
      rw [h.frozen, isFrozen_eq, ← h.rows, List.any_eq_true]
      constructor
      · rintro ⟨⟨event, cell⟩, hrow, hfull⟩
        obtain ⟨codec, rfl⟩ := Option.isSome_iff_exists.mp hfull
        exact ⟨event, codec, Array.mem_toList_iff.mp hrow⟩
      · rintro ⟨event, codec, hrow⟩
        exact ⟨_, Array.mem_toList_iff.mpr hrow, rfl⟩
    eventOfId := by
      intro id event
      rw [h.eventOfId?]
      exact hc.eventOfId id event
    eventOfName := by
      intro name event
      rw [h.eventOfName?]
      exact hc.eventOfName name event
    codecOfId := by
      intro id
      rw [(follows_codecOfId? id h).1, h.eventOfId?, h.codec]
      exact hc.codecOfId id
    codecOfName := by
      intro name
      rw [(follows_codecOfName? name h).1, h.eventOfName?, h.codec]
      exact hc.codecOfName name
    codecOfHeader := by
      intro header
      rw [(follows_codecOfHeader? header h).1, (follows_codecOfId? header.id h).1]
      exact hc.codecOfHeader header
    listed := by
      rw [events, h.defined]
      exact hc.listed
    ascending := by
      rw [events, h.defined]
      exact hc.ascending }

/-- Two tables cannot be told apart by what they answer. -/
structure SameAnswers (a b : Tables) : Prop where
  size : a.rows.size = b.rows.size
  eventOfId : ∀ id, a.eventOfId? id = b.eventOfId? id
  eventOfName : ∀ name, a.eventOfName? name = b.eventOfName? name
  events : a.events = b.events
  fingerprint : (fingerprint a).1 = (fingerprint b).1
  codecOfId : ∀ id, (codecOfId? id a).1 = (codecOfId? id b).1
  codecOfName : ∀ name, (codecOfName? name a).1 = (codecOfName? name b).1
  codecOfHeader : ∀ header, (codecOfHeader? header a).1 = (codecOfHeader? header b).1
  encode : ∀ name record, (encode name record a).1 = (encode name record b).1
  decodeFirst : ∀ data, (decodeFirst data a).1 = (decodeFirst data b).1
  decode : ∀ data, (decode data a).1 = (decode data b).1
  reconstruct : ∀ name record, (reconstruct name record a).1 = (reconstruct name record b).1

theorem Follows.answer_eq {α : Type} {act : StateM Tables α} {op : Registry → α × Registry}
    (hact : Follows act op) {a b : Tables} {r s : Registry} (ha : a.Holds r) (hb : b.Holds s)
    (h : (op r).1 = (op s).1) : (act a).1 = (act b).1 := by
  rw [(hact ha).1, (hact hb).1, h]

/-- Tables answer as the registries do that they hold. -/
theorem Holds.sameAnswers {a b : Tables} {r s : Registry} (ha : a.Holds r) (hb : b.Holds s)
    (h : r.SameAnswers s) : a.SameAnswers b where
  size := by rw [ha.size, hb.size, h.size]
  eventOfId id := by rw [ha.eventOfId?, hb.eventOfId?, h.eventOfId]
  eventOfName name := by rw [ha.eventOfName?, hb.eventOfName?, h.eventOfName]
  events := by
    rw [Tables.events, Tables.events, ha.defined, hb.defined]
    exact h.events
  fingerprint := follows_fingerprint.answer_eq ha hb h.fingerprint
  codecOfId id := (follows_codecOfId? id).answer_eq ha hb (h.codecOfId id)
  codecOfName name := (follows_codecOfName? name).answer_eq ha hb (h.codecOfName name)
  codecOfHeader header := (follows_codecOfHeader? header).answer_eq ha hb (h.codecOfHeader header)
  encode name record := (follows_encode name record).answer_eq ha hb (h.encode name record)
  decodeFirst data := (follows_decodeFirst data).answer_eq ha hb (h.decodeFirst data)
  decode data := (follows_decode data).answer_eq ha hb (h.decode data)
  reconstruct name record :=
    (follows_reconstruct name record).answer_eq ha hb (h.reconstruct name record)

/-- Adds events, one after the other, up to the first that is refused. -/
def defineAll (definitions : List Definition) : ExceptT SchemaError (StateM Tables) Unit :=
  forM definitions fun definition => define definition.id definition.name definition.fields

/-- Definitions that are accepted one after the other are accepted in place. -/
theorem Holds.defineAll (h : tables.Holds registry) {definitions : List Definition}
    {next : Registry} (hdefine : registry.defineAll definitions = .ok next) :
    ∃ after, (defineAll definitions).run tables = (.ok (), after) ∧ after.Holds next := by
  induction definitions generalizing tables registry with
  | nil =>
    cases hdefine
    exact ⟨tables, rfl, h⟩
  | cons definition definitions ih =>
    obtain ⟨first, hfirst, hrest⟩ := Registry.defineAll_cons_eq_ok_iff.mp hdefine
    obtain ⟨between, hrun, hholds⟩ :=
      (h.define definition.id definition.name definition.fields).2 first hfirst
    obtain ⟨after, hafter, hlast⟩ := ih hholds hrest
    refine ⟨after, ?_, hlast⟩
    rw [Tables.defineAll, List.forM_cons, ExceptT.run_bind, bind_apply, hrun]
    exact hafter

end Tables

namespace Lineage

variable {settings : RegistrySettings} {steps : List Step} {lineage : Lineage}

/-- **Tables catalogue what has been accepted**, row by row and index by index, whatever
they and the tables they are a copy of have gone through. -/
theorem tables_catalogue (hmem : lineage ∈ family settings steps) :
    (lineage.tables settings).settings = settings ∧ ∃ events : List Event,
      List.Forall₂ (fun definition event => definition.event = .ok event)
        ((Registry.ofSettings settings).accepted lineage.history) events ∧
      (lineage.tables settings).Catalogues events := by
  have hholds := holds_tables hmem
  obtain ⟨hsettings, hgiven⟩ := forall₂_defined hmem
  exact ⟨hholds.settings.trans hsettings, lineage.registry.defined, hgiven,
    hholds.catalogue (sound hmem)⟩

/-- **Tables answer as new ones** that have only been given the accepted definitions,
whatever is in their cells. The mark tells whether the codec of a defined event has ever
been asked for. Once it is set it stays set, all definitions are refused and write
nothing, and the answers stay as they are. -/
theorem tables_replay (hmem : lineage ∈ family settings steps) :
    (∃ replayed, (Tables.defineAll
          ((Registry.ofSettings settings).accepted lineage.history)).run
            (Tables.ofSettings settings) = (.ok (), replayed) ∧
        (lineage.tables settings).SameAnswers replayed) ∧
      ((lineage.tables settings).frozen ↔
        (Registry.ofSettings settings).EverAsked lineage.history) ∧
      ((lineage.tables settings).frozen → ∀ uses : List Registry.Use,
        let later := (lineage.tables settings).afterAll uses
        later.frozen ∧
        (∀ id name fields,
          (Tables.define id name fields).run later = (.error (.frozen name), later)) ∧
        (lineage.tables settings).SameAnswers later) := by
  have hholds := holds_tables hmem
  obtain ⟨replayed, hreplayed, hschema⟩ := exists_replay_of_mem_family hmem
  obtain ⟨after, hrun, hafter⟩ := (Tables.holds_ofSettings settings).defineAll hreplayed
  have hanswers := Registry.sameAnswers_of_schema_eq hschema (sound hmem)
  have htraces : lineage.registry = _ := traces_of_mem_family hmem
  refine ⟨⟨after, hrun, hholds.sameAnswers hafter hanswers⟩, ?_, ?_⟩
  · rw [hholds.frozen, htraces, Registry.isFrozen_afterAll]
    exact or_iff_right Bool.false_ne_true
  · intro hfrozen uses
    rw [hholds.frozen] at hfrozen
    have hlater := hholds.afterAll uses
    obtain ⟨hstill, hkept⟩ := Registry.schema_afterAll_of_isFrozen hfrozen uses
    refine ⟨hlater.frozen.trans hstill, fun id name fields => ?_, ?_⟩
    · exact (hlater.define id name fields).1 _ (Registry.define_of_isFrozen hstill)
    · exact hholds.sameAnswers hlater (Registry.sameAnswers_of_schema_eq hkept.symm (sound hmem))

/-- The mark of a clone that has been asked for a codec is set, whatever has become of the
record. -/
example : (chatClone.tables {}).frozen = true := by
  rw [(holds_tables chatClone_mem).frozen]
  exact chatClone_spec.1

end Lineage

end EventWire
