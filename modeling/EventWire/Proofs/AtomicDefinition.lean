/-
EventWire.Proofs.AtomicDefinition — what a definition does to a registry.

A definition is accepted exactly if five things are in order (`Registry.Takes`). If
some are not, the first of them is the error, in a fixed order (`Registry.Refuses`);
ids and names are distinct in a registry, so the event that is in the way is told by
either (`Schema.Sound`). One of the two is always so (`takes_or_refuses`), which turns
both into equivalences.

A refused definition leaves the registry as it was, tables and cells included. An
accepted one changes what is found under the id, the name and the header of the new
event, and nothing else (`Registry.Gains`).
-/
import EventWire.Proofs.EventValidation
import EventWire.Proofs.TableHistory

namespace EventWire

namespace Registry

/-! ## Accepted and refused -/

/-- The registry has a place for the definition. -/
structure Takes (registry : Registry) (id : UInt32) (name : String) (fields : List Field) :
    Prop where
  unused : registry.isFrozen = false
  valid : ∃ event, Event.define id name fields = .ok event
  newId : ∀ event ∈ registry.defined, event.id ≠ id
  newName : ∀ event ∈ registry.defined, event.name ≠ name
  /-- Compact events are limited in number. -/
  room : id ≤ maxCompactId →
    registry.defined.countP (·.id ≤ maxCompactId) < registry.settings.maxCompactEvents

/-- What is said against a definition: that the registry is frozen; or else what there
is to say about the definition alone; or else that the id is taken, and by which name;
or else that the name is taken, and by which id; or else that there are too many
compact events. -/
inductive Refuses (registry : Registry) (id : UInt32) (name : String) (fields : List Field) :
    SchemaError → Prop where
  | frozen (h : registry.isFrozen = true) : Refuses registry id name fields (.frozen name)
  | invalid (hunused : registry.isFrozen = false) {error : SchemaError}
    (h : Event.define id name fields = .error error) : Refuses registry id name fields error
  | id (hunused : registry.isFrozen = false)
    (hvalid : ∃ event, Event.define id name fields = .ok event) {existing : Event}
    (hmem : existing ∈ registry.defined) (hid : existing.id = id) :
    Refuses registry id name fields (.duplicateId id existing.name)
  | name (hunused : registry.isFrozen = false)
    (hvalid : ∃ event, Event.define id name fields = .ok event)
    (hid : ∀ event ∈ registry.defined, event.id ≠ id) {existing : Event}
    (hmem : existing ∈ registry.defined) (hname : existing.name = name) :
    Refuses registry id name fields (.duplicateName name existing.id)
  | room (hunused : registry.isFrozen = false)
    (hvalid : ∃ event, Event.define id name fields = .ok event)
    (hid : ∀ event ∈ registry.defined, event.id ≠ id)
    (hname : ∀ event ∈ registry.defined, event.name ≠ name) (hcompact : id ≤ maxCompactId)
    (hfull : registry.settings.maxCompactEvents ≤
      registry.defined.countP (·.id ≤ maxCompactId)) :
    Refuses registry id name fields (.tooManyEvents registry.settings.maxCompactEvents)

variable {registry next : Registry} {event : Event} {id : UInt32} {name : String}
  {fields : List Field} {error : SchemaError}

theorem eventOfId?_eq_none_iff :
    registry.eventOfId? id = none ↔ ∀ event ∈ registry.defined, event.id ≠ id := by
  simp [eventOfId?]

theorem eventOfName?_eq_none_iff :
    registry.eventOfName? name = none ↔ ∀ event ∈ registry.defined, event.name ≠ name := by
  simp [eventOfName?]

theorem define_of_unused (h : registry.isFrozen = false)
    (hevent : Event.define id name fields = .ok event) :
    registry.define id name fields =
      (registry.checkRoom event).bind fun _ => .ok (registry.add event) := by
  rw [define, h, hevent]
  rfl

theorem checkRoom_iff :
    registry.checkRoom event = .ok () ↔
      (∀ other ∈ registry.defined, other.id ≠ event.id) ∧
        (∀ other ∈ registry.defined, other.name ≠ event.name) ∧
        (event.id ≤ maxCompactId →
          registry.defined.countP (·.id ≤ maxCompactId) < registry.settings.maxCompactEvents) := by
  rw [checkRoom_eq_ok_iff, Event.isExtended_eq_false_iff, compactCount_eq]
  simp

theorem takes_of_define (h : registry.define id name fields = .ok next) :
    registry.Takes id name fields := by
  obtain ⟨hunused, event, hevent, hroom, -⟩ := define_eq_ok_iff.mp h
  obtain ⟨rfl, rfl⟩ := Event.id_name_of_define hevent
  obtain ⟨hid, hname, hcompact⟩ := checkRoom_iff.mp hroom
  exact ⟨hunused, ⟨event, hevent⟩, hid, hname, hcompact⟩

theorem exists_define_of_takes (h : registry.Takes id name fields) :
    ∃ next, registry.define id name fields = .ok next := by
  obtain ⟨hunused, ⟨event, hevent⟩, hid, hname, hcompact⟩ := h
  obtain ⟨rfl, rfl⟩ := Event.id_name_of_define hevent
  have hroom := checkRoom_iff.mpr ⟨hid, hname, hcompact⟩
  exact ⟨registry.add event, define_eq_ok_iff.mpr ⟨hunused, event, hevent, hroom, rfl⟩⟩

/-- What there is to say is said. -/
theorem define_of_refuses (hsound : registry.schema.Sound)
    (h : registry.Refuses id name fields error) :
    registry.define id name fields = .error error := by
  cases h with
  | frozen h => exact define_of_isFrozen h
  | invalid hunused h =>
    rw [define, hunused, h]
    rfl
  | id hunused hvalid hmem hid =>
    obtain ⟨event, hevent⟩ := hvalid
    obtain ⟨rfl, rfl⟩ := Event.id_name_of_define hevent
    have hfound : registry.eventOfId? event.id = _ :=
      (find?_key_eq_some_iff hsound.ids).mpr ⟨hmem, hid⟩
    rw [define_of_unused hunused hevent, checkRoom, hfound]
    rfl
  | name hunused hvalid hid hmem hname =>
    obtain ⟨event, hevent⟩ := hvalid
    obtain ⟨rfl, rfl⟩ := Event.id_name_of_define hevent
    have hfound : registry.eventOfName? event.name = _ :=
      (find?_key_eq_some_iff hsound.names).mpr ⟨hmem, hname⟩
    rw [define_of_unused hunused hevent, checkRoom, eventOfId?_eq_none_iff.mpr hid, hfound]
    rfl
  | room hunused hvalid hid hname hcompact hfull =>
    obtain ⟨event, hevent⟩ := hvalid
    obtain ⟨rfl, rfl⟩ := Event.id_name_of_define hevent
    rw [← compactCount_eq] at hfull
    rw [define_of_unused hunused hevent, checkRoom, eventOfId?_eq_none_iff.mpr hid,
      eventOfName?_eq_none_iff.mpr hname]
    simp [Event.isExtended_eq_false_iff.mpr hcompact, hfull, Except.bind]

theorem takes_or_refuses (registry : Registry) (id : UInt32) (name : String)
    (fields : List Field) :
    registry.Takes id name fields ∨ ∃ error, registry.Refuses id name fields error := by
  cases hunused : registry.isFrozen with
  | true => exact .inr ⟨_, .frozen hunused⟩
  | false =>
    cases hevent : Event.define id name fields with
    | error error => exact .inr ⟨_, .invalid hunused hevent⟩
    | ok event =>
      have hvalid : ∃ event, Event.define id name fields = .ok event := ⟨event, hevent⟩
      by_cases hid : ∀ event ∈ registry.defined, event.id ≠ id
      swap
      · push Not at hid
        obtain ⟨existing, hmem, hsame⟩ := hid
        exact .inr ⟨_, .id hunused hvalid hmem hsame⟩
      by_cases hname : ∀ event ∈ registry.defined, event.name ≠ name
      swap
      · push Not at hname
        obtain ⟨existing, hmem, hsame⟩ := hname
        exact .inr ⟨_, .name hunused hvalid hid hmem hsame⟩
      by_cases hroom : id ≤ maxCompactId → registry.defined.countP (·.id ≤ maxCompactId) <
          registry.settings.maxCompactEvents
      · exact .inl ⟨hunused, hvalid, hid, hname, hroom⟩
      · push Not at hroom
        exact .inr ⟨_, .room hunused hvalid hid hname hroom.1 hroom.2⟩

/-! ## What an accepted definition changes -/

/-- The next registry has one event more, and nothing else is different. -/
structure Gains (registry next : Registry) (event : Event) : Prop where
  settings : next.settings = registry.settings
  isFrozen : next.isFrozen = registry.isFrozen
  eventOfId : ∀ id, next.eventOfId? id = if id = event.id then some event
    else registry.eventOfId? id
  eventOfName : ∀ name, next.eventOfName? name = if name = event.name then some event
    else registry.eventOfName? name
  codecOfId : ∀ id, (next.codecOfId? id).1 =
    if id = event.id then some (registry.schema.codec event) else (registry.codecOfId? id).1
  codecOfName : ∀ name, (next.codecOfName? name).1 =
    if name = event.name then some (registry.schema.codec event)
    else (registry.codecOfName? name).1
  codecOfHeader : ∀ header, (next.codecOfHeader? header).1 =
    if header = event.header then some (registry.schema.codec event)
    else (registry.codecOfHeader? header).1
  encode : ∀ name record, (next.encode name record).1 =
    if name = event.name then (registry.schema.codec event).encode record
    else (registry.encode name record).1
  decodeFirst : ∀ data, (next.decodeFirst data).1 =
    if Header.read? data = some event.header then
      ((registry.schema.codec event).decode data).map fun (record, size) => ⟨event, record, size⟩
    else (registry.decodeFirst data).1
  /-- The event is among the others, in the order of ids. -/
  listed : next.events.Perm (event :: registry.events)
  ascending : next.events.Pairwise (fun a b => a.id < b.id)
  size : next.size = registry.size + 1
  /-- No earlier fingerprint is remembered. -/
  fingerprint : next.fingerprint.1 = Fingerprint.ofEvents next.events

/-- An event of a new key is found under its key, and hides nothing. -/
theorem find?_add {β : Type} [DecidableEq β] {key : Event → β}
    (hnew : ∀ other ∈ registry.defined, key other ≠ key event) (k : β) :
    (registry.add event).defined.find? (fun other => decide (key other = k)) =
      if k = key event then some event
      else registry.defined.find? (fun other => decide (key other = k)) := by
  rw [defined_add, List.find?_append]
  by_cases hkey : k = key event
  · subst hkey
    have hnone : registry.defined.find? (fun other => decide (key other = key event)) = none := by
      simpa using hnew
    simp [hnone]
  · have hother : key event ≠ k := Ne.symm hkey
    simp [hkey, hother]

theorem resolve_add {β : Type} [DecidableEq β] {key : Event → β}
    (hnew : ∀ other ∈ registry.defined, key other ≠ key event) (k : β) :
    (registry.add event).schema.resolve (fun other => decide (key other = k)) =
      if k = key event then some (event, registry.schema.codec event)
      else registry.schema.resolve (fun other => decide (key other = k)) := by
  have hfound := congrArg
    (Option.map fun event => (event, registry.schema.codec event)) (find?_add hnew k)
  refine Eq.trans hfound ?_
  split <;> rfl

theorem resolveHeader_add (hnew : ∀ other ∈ registry.defined, other.id ≠ event.id)
    (header : Header) :
    (registry.add event).schema.resolveHeader header =
      if header = event.header then some (event, registry.schema.codec event)
      else registry.schema.resolveHeader header := by
  have hheader : header = event.header ↔ header.isCanonical = true ∧ header.id = event.id := by
    rw [eq_comm, Event.header_eq_iff, eq_comm (a := header.id)]
  unfold Schema.resolveHeader
  rw [resolve_add hnew]
  by_cases hcanonical : header.isCanonical = true
  · simp only [hheader, hcanonical, if_true, true_and]
  · simp only [hheader, hcanonical, Bool.false_eq_true, if_false, false_and]

theorem gains_add (hsound : (registry.add event).schema.Sound)
    (hid : ∀ other ∈ registry.defined, other.id ≠ event.id)
    (hname : ∀ other ∈ registry.defined, other.name ≠ event.name) :
    registry.Gains (registry.add event) event where
  settings := rfl
  isFrozen := isFrozen_add ..
  eventOfId := find?_add hid
  eventOfName := find?_add hname
  codecOfId id := by
    have hfound : (registry.add event).eventOfId? id = _ := find?_add hid id
    rw [codecOfId?_fst, codecOfId?_fst, hfound]
    split <;> rfl
  codecOfName name := by
    have hfound : (registry.add event).eventOfName? name = _ := find?_add hname name
    rw [codecOfName?_fst, codecOfName?_fst, hfound]
    split <;> rfl
  codecOfHeader header := by
    rw [codecOfHeader?_fst, codecOfHeader?_fst, resolveHeader_add hid]
    split <;> rfl
  encode name record := by
    rw [encode_fst, encode_fst, Schema.encode, resolve_add hname]
    by_cases hsame : name = event.name
    · rw [if_pos hsame, if_pos hsame]
    · rw [if_neg hsame, if_neg hsame]
      rfl
  decodeFirst data := by
    rw [decodeFirst_fst, decodeFirst_fst]
    unfold Schema.decodeFirst
    cases Header.read? data with
    | none => rfl
    | some header =>
      dsimp only
      simp only [resolveHeader_add hid, Option.some.injEq]
      by_cases hsame : header = event.header
      · rw [if_pos hsame, if_pos hsame]
      · rw [if_neg hsame, if_neg hsame]
  listed := by
    refine (sortById_perm _).trans ?_
    rw [defined_add]
    exact (List.perm_append_singleton ..).trans ((sortById_perm registry.defined).symm.cons _)
  ascending := pairwise_lt_sortById hsound.ids
  size := by
    simp [Registry.size, add]
  fingerprint := by
    rw [fingerprint_fst]
    exact Fingerprint.ofEvents_of_perm (sortById_perm _).symm hsound.ids

theorem gains_of_define (hsound : registry.schema.Sound)
    (h : registry.define id name fields = .ok next) :
    ∃ event, Event.define id name fields = .ok event ∧ registry.Gains next event := by
  obtain ⟨-, -, hid, hname, -⟩ := takes_of_define h
  obtain ⟨-, event, hevent, -, rfl⟩ := define_eq_ok_iff.mp h
  obtain ⟨rfl, rfl⟩ := Event.id_name_of_define hevent
  exact ⟨event, hevent, gains_add (sound_define hsound h) hid hname⟩

end Registry

namespace Lineage

variable {settings : RegistrySettings} {steps : List Step} {lineage : Lineage}

/-- **A definition is all or nothing**, whatever the registry has gone through. It is
accepted exactly if the registry has a place for it, and otherwise refused for the
first thing that is not in order. A refused definition leaves the registry as it was;
an accepted one gives it one event more, with its fields in wire order, and changes
nothing else. The same holds in place: there are tables that hold the registry, and in
all such tables a refused definition has written nothing, while after an accepted one
they hold the next registry. -/
theorem define_atomic (hmem : lineage ∈ family settings steps) (id : UInt32) (name : String)
    (fields : List Field) :
    ((∃ next, lineage.registry.define id name fields = .ok next) ↔
      lineage.registry.Takes id name fields) ∧
    (∀ error, lineage.registry.define id name fields = .error error ↔
      lineage.registry.Refuses id name fields error) ∧
    (∀ error, lineage.registry.define id name fields = .error error →
      lineage.registry.after (.perform (.define id name fields)) = lineage.registry) ∧
    (∀ next, lineage.registry.define id name fields = .ok next →
      lineage.registry.after (.perform (.define id name fields)) = next ∧
      ∃ event, event.id = id ∧ event.name = name ∧ event.fields.Perm fields ∧
        Event.WireOrdered event.fields ∧ lineage.registry.Gains next event) ∧
    lineage.registry.Kept ∧
    ∀ tables : Tables, tables.Holds lineage.registry →
      (∀ error, lineage.registry.define id name fields = .error error →
        (Tables.define id name fields).run tables = (.error error, tables)) ∧
      ∀ next, lineage.registry.define id name fields = .ok next →
        ∃ after, (Tables.define id name fields).run tables = (.ok (), after) ∧
          after.Holds next := by
  have hsound := sound hmem
  have hperform : lineage.registry.after (.perform (.define id name fields)) =
      (lineage.registry.define id name fields).toOption.getD lineage.registry := rfl
  refine ⟨⟨?_, Registry.exists_define_of_takes⟩, fun error => ⟨?_, ?_⟩, ?_, ?_, kept hmem, ?_⟩
  · rintro ⟨next, hdefine⟩
    exact Registry.takes_of_define hdefine
  · intro hdefine
    rcases lineage.registry.takes_or_refuses id name fields with htakes | ⟨other, hrefuses⟩
    · obtain ⟨next, hnext⟩ := Registry.exists_define_of_takes htakes
      rw [hnext] at hdefine
      exact nomatch hdefine
    · rw [Registry.define_of_refuses hsound hrefuses] at hdefine
      cases hdefine
      exact hrefuses
  · exact Registry.define_of_refuses hsound
  · intro error hdefine
    rw [hperform, hdefine]
    rfl
  · intro next hdefine
    obtain ⟨event, hevent, hgains⟩ := Registry.gains_of_define hsound hdefine
    obtain ⟨hid, hname⟩ := Event.id_name_of_define hevent
    rw [hperform, hdefine]
    exact ⟨rfl, event, hid, hname, Event.fields_perm_of_define hevent,
      Event.wireOrdered_of_define hevent, hgains⟩
  · intro tables hholds
    exact hholds.define id name fields

/-- The first of the two registries, which has never been asked for a codec. -/
def chatFirst : Lineage :=
  ((family {} chatSteps)[0]?).getD ⟨.ofSettings {}, []⟩

theorem chatFirst_mem : chatFirst ∈ family {} chatSteps :=
  List.mem_of_getElem? (i := 0) rfl

theorem chatFirst_spec : chatFirst.registry.settings = {} ∧
    chatFirst.registry.isFrozen = false ∧ chatFirst.registry.defined =
      [⟨300, "chat", [⟨"text", .blob .string⟩]⟩, ⟨7, "say", []⟩, ⟨8, "more", []⟩] := by cbv

/-- Of an id and a name that are both taken the id is told, and nothing is written. A
definition with a new id and a new name is accepted. -/
theorem define_atomic_chat : chatFirst ∈ family {} chatSteps ∧
    chatFirst.registry.define 7 "chat" [] = .error (.duplicateId 7 "say") ∧
    chatFirst.registry.after (.perform (.define 7 "chat" [])) = chatFirst.registry ∧
    (∃ tables : Tables, tables.Holds chatFirst.registry ∧
      (Tables.define 7 "chat" []).run tables = (.error (.duplicateId 7 "say"), tables)) ∧
    ∃ next, chatFirst.registry.define 9 "hi" [⟨"t", .blob .string⟩, ⟨"n", .scalar .byte⟩] =
        .ok next ∧
      ∃ event, event.id = 9 ∧ event.name = "hi" ∧ Event.WireOrdered event.fields ∧
        chatFirst.registry.Gains next event := by
  obtain ⟨hsettings, hunused, hdefined⟩ := chatFirst_spec
  have hsay : (⟨7, "say", []⟩ : Event) ∈ chatFirst.registry.defined := by simp [hdefined]
  have hchat : ∃ event, Event.define 7 "chat" [] = .ok event := ⟨⟨7, "chat", []⟩, by cbv⟩
  have hhi : ∃ event, Event.define 9 "hi" [⟨"t", .blob .string⟩, ⟨"n", .scalar .byte⟩] =
      .ok event := ⟨⟨9, "hi", [⟨"n", .scalar .byte⟩, ⟨"t", .blob .string⟩]⟩, by cbv⟩
  obtain ⟨-, hrefused, hkept, -, ⟨tables, hholds⟩, hplace⟩ :=
    define_atomic chatFirst_mem 7 "chat" []
  have hdefine := (hrefused _).mpr (.id hunused hchat hsay rfl)
  obtain ⟨haccepted, -, -, hgains, -⟩ :=
    define_atomic chatFirst_mem 9 "hi" [⟨"t", .blob .string⟩, ⟨"n", .scalar .byte⟩]
  obtain ⟨next, hnext⟩ := haccepted.mpr ⟨hunused, hhi, by simp [hdefined], by simp [hdefined], by
    rw [hdefined, hsettings]
    decide⟩
  obtain ⟨-, event, hid, hname, -, hordered, hgained⟩ := hgains next hnext
  exact ⟨chatFirst_mem, hdefine, hkept _ hdefine,
    ⟨tables, hholds, (hplace tables hholds).1 _ hdefine⟩,
    next, hnext, event, hid, hname, hordered, hgained⟩

end Lineage

end EventWire
