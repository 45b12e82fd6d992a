/-
EventWire.Proofs.SchemaDrift — small changes of a schema show in its fingerprint.

The fingerprint is a checksum of the canonical form, so it tells forms apart that
differ within four bytes (`Crc32.checksum_ne`). Two changes of a schema are as small
as that: a field is given another type, which is one byte, or an event another id,
which is four. Everything else has to stay where it is for it. Fields do if the type
is of the same group, since their wire order looks at no more of a type than its
group (`Event.Retyped.exists_fields`); events do if the id comes at the same place
among the other ids (`exists_sortById`).

Both changes are told without a word about order: the rest of the fields and of the
events are the same up to rearrangement.
-/
import EventWire.Field.Error
import EventWire.Proofs.BurstDetection
import EventWire.Proofs.Catalogue
import EventWire.Proofs.EventValidation

namespace EventWire

/-! ## One field of another type -/

theorem FieldType.ofCode_code (type : FieldType) : ofCode type.code = .ok type := by
  rcases type with (_ | _ | _ | _ | _) | (_ | _) <;> rfl

theorem FieldType.code_injective : Function.Injective FieldType.code := by
  intro a b h
  have hread := ofCode_code a
  rw [h, ofCode_code b] at hread
  exact (Except.ok.inj hread).symm

namespace Event

/-- The second of two events is the first, but for the type of one field, which is
another one of the same group. -/
structure Retyped (event event' : Event) : Prop where
  id : event'.id = event.id
  name : event'.name = event.name
  fields : ∃ (field : String) (type type' : FieldType) (others : List Field),
    event.fields.Perm (⟨field, type⟩ :: others) ∧ event'.fields.Perm (⟨field, type'⟩ :: others) ∧
      type ≠ type' ∧ type.isStatic = type'.isStatic

variable {event event' : Event} {fields fields' : List Field}

/-- Wire order looks at names and groups, and at nothing else. -/
theorem WireOrdered.of_map_eq
    (h : fields.map (fun field => (field.name, field.type.isStatic)) =
      fields'.map fun field => (field.name, field.type.isStatic))
    (hordered : WireOrdered fields) : WireOrdered fields' where
  groups := by
    have hgroups := hordered.groups
    rw [← List.pairwise_map (f := fun field : Field => (field.name, field.type.isStatic))
      (R := fun a b => b.2 = true → a.2 = true)] at hgroups ⊢
    rwa [← h]
  names := by
    have hnames := hordered.names
    rw [← List.pairwise_map (f := fun field : Field => (field.name, field.type.isStatic))
      (R := fun a b => a.2 = b.2 → Utf8.encode a.1 < Utf8.encode b.1)] at hnames ⊢
    rwa [← h]

/-- In wire order, the field of the other type is where it was. -/
theorem Retyped.exists_fields (h : event.Retyped event') (hordered : WireOrdered event.fields)
    (hordered' : WireOrdered event'.fields) :
    ∃ (before after : List Field) (field : String) (type type' : FieldType),
      event.fields = before ++ ⟨field, type⟩ :: after ∧
        event'.fields = before ++ ⟨field, type'⟩ :: after ∧ type ≠ type' := by
  obtain ⟨field, type, type', others, hperm, hperm', hne, hgroup⟩ := h.fields
  obtain ⟨before, after, hfields⟩ := List.append_of_mem (hperm.mem_iff.mpr List.mem_cons_self)
  refine ⟨before, after, field, type, type', hfields, ?_, hne⟩
  have hothers : others.Perm (before ++ after) := by
    rw [hfields] at hperm
    exact (List.perm_middle.symm.trans hperm).cons_inv.symm
  have hchanged : WireOrdered (before ++ ⟨field, type'⟩ :: after) := by
    refine WireOrdered.of_map_eq ?_ hordered
    simp [hfields, hgroup]
  refine hordered'.eq_of_perm hchanged (hperm'.trans ?_)
  exact (hothers.cons _).trans List.perm_middle.symm

end Event

/-! ## One event for another -/

theorem sortById_of_ascending {events sorted : List Event} (hperm : events.Perm sorted)
    (h : sorted.Pairwise fun a b => a.id < b.id) : Fingerprint.sortById events = sorted := by
  have hnodup : (sorted.map Event.id).Nodup :=
    List.pairwise_map.mpr (h.imp UInt32.ne_of_lt)
  rw [sortById_of_perm hperm ((hperm.map Event.id).nodup_iff.mpr hnodup)]
  refine List.mergeSort_of_pairwise (h.imp fun hlt => ?_)
  simpa using UInt32.le_of_lt hlt

/-- An event that takes the place of another one by its id takes it on the list. -/
theorem exists_sortById {events events' others : List Event} {event event' : Event}
    (hperm : events.Perm (event :: others)) (hperm' : events'.Perm (event' :: others))
    (hnodup : (events.map Event.id).Nodup) (hnodup' : (events'.map Event.id).Nodup)
    (hplace : ∀ other ∈ others, other.id < event.id ↔ other.id < event'.id) :
    ∃ before after, Fingerprint.sortById events = before ++ event :: after ∧
      Fingerprint.sortById events' = before ++ event' :: after := by
  have hmem : event ∈ Fingerprint.sortById events :=
    (sortById_perm events).mem_iff.mpr (hperm.mem_iff.mpr List.mem_cons_self)
  obtain ⟨before, after, hsorted⟩ := List.append_of_mem hmem
  refine ⟨before, after, hsorted, ?_⟩
  have hothers : others.Perm (before ++ after) := by
    have hfound := (sortById_perm events).trans hperm
    rw [hsorted] at hfound
    exact (List.perm_middle.symm.trans hfound).cons_inv.symm
  have hchanged : events'.Perm (before ++ event' :: after) :=
    hperm'.trans ((hothers.cons _).trans List.perm_middle.symm)
  have hascending := pairwise_lt_sortById hnodup
  rw [hsorted, List.pairwise_append, List.pairwise_cons] at hascending
  obtain ⟨hbefore, ⟨hnext, hafter⟩, hbetween⟩ := hascending
  have hnew : ∀ other ∈ others, other.id ≠ event'.id := by
    have hids := (hperm'.map Event.id).nodup_iff.mp hnodup'
    intro other hother heq
    exact (List.nodup_cons.mp hids).1 (heq ▸ List.mem_map_of_mem hother)
  refine sortById_of_ascending hchanged ?_
  rw [List.pairwise_append, List.pairwise_cons]
  refine ⟨hbefore, ⟨?_, hafter⟩, ?_⟩
  · intro other hother
    have hmem := hothers.mem_iff.mpr (List.mem_append_right before hother)
    have hlater : ¬ other.id < event'.id := fun hlt =>
      UInt32.lt_asymm (hnext other hother) ((hplace other hmem).mpr hlt)
    exact UInt32.lt_of_le_of_ne (UInt32.not_lt.mp hlater) (hnew other hmem).symm
  · intro earlier hearlier other hother
    rcases List.mem_cons.mp hother with rfl | hother
    · have hmem := hothers.mem_iff.mpr (List.mem_append_left after hearlier)
      exact (hplace earlier hmem).mp (hbetween earlier hearlier event List.mem_cons_self)
    · exact hbetween earlier hearlier other (List.mem_cons_of_mem _ hother)

namespace Fingerprint

/-- Forms of two events that differ in up to four bytes at one place give different
fingerprints, where one of the events stands for the other. -/
theorem ofEvents_ne_of_exchange {events events' earlier later : List Event} {event event' : Event}
    (hcount : events.length = events'.length)
    (hsorted : sortById events = earlier ++ event :: later)
    (hsorted' : sortById events' = earlier ++ event' :: later)
    {before middle middle' after : Bytes} (hform : eventForm event = before ++ (middle ++ after))
    (hform' : eventForm event' = before ++ (middle' ++ after))
    (hlength : middle.length = middle'.length) (hfits : middle.length ≤ 4)
    (hne : middle ≠ middle') : ofEvents events ≠ ofEvents events' := by
  have hwhole : canonicalForm events =
      (countForm events.length ++ earlier.flatMap eventForm ++ before) ++
        (middle ++ (after ++ later.flatMap eventForm)) := by
    simp [canonicalForm, hsorted, hform]
  have hwhole' : canonicalForm events' =
      (countForm events.length ++ earlier.flatMap eventForm ++ before) ++
        (middle' ++ (after ++ later.flatMap eventForm)) := by
    simp [canonicalForm, hsorted', hform', hcount]
  intro hsame
  have hsum : Crc32.checksum (canonicalForm events) = Crc32.checksum (canonicalForm events') :=
    congrArg Fingerprint.value hsame
  rw [hwhole, hwhole'] at hsum
  exact Crc32.checksum_ne_of_middle _ _ hlength hfits hne hsum

/-- A field's type is one byte of its event's form. -/
theorem eventForm_eq_of_fields {event : Event} {before after : List Field} {field : String}
    {type : FieldType} (h : event.fields = before ++ ⟨field, type⟩ :: after) :
    eventForm event =
      (BigEndian.encode 4 event.id.toNat ++ textForm event.name ++
        countForm (before.length + (after.length + 1)) ++ before.flatMap fieldForm ++
        textForm field) ++ ([type.code] ++ after.flatMap fieldForm) := by
  simp [eventForm, h, fieldForm]

theorem idForm_injective {id id' : UInt32}
    (h : BigEndian.encode 4 id.toNat = BigEndian.encode 4 id'.toNat) : id = id' := by
  have hcapacity (id : UInt32) : id.toNat < BigEndian.capacity 4 := id.toNat_lt
  apply UInt32.toNat_inj.mp
  rw [← BigEndian.decode_encode (hcapacity id), h, BigEndian.decode_encode (hcapacity id')]

end Fingerprint

/-! ## Schemas -/

namespace Registry

variable {registry registry' : Registry} {event event' : Event} {others : List Event}

theorem fingerprint_ne_of_retyped (h : registry.Reachable) (h' : registry'.Reachable)
    (hdefined : registry.defined.Perm (event :: others))
    (hdefined' : registry'.defined.Perm (event' :: others)) (hretyped : event.Retyped event') :
    registry.fingerprint.1 ≠ registry'.fingerprint.1 := by
  obtain ⟨fields, hdefine⟩ := h.sound.defined event (hdefined.mem_iff.mpr List.mem_cons_self)
  obtain ⟨fields', hdefine'⟩ := h'.sound.defined event' (hdefined'.mem_iff.mpr List.mem_cons_self)
  obtain ⟨before, after, field, type, type', hfields, hfields', hne⟩ := hretyped.exists_fields
    (Event.wireOrdered_of_define hdefine) (Event.wireOrdered_of_define hdefine')
  obtain ⟨earlier, later, hsorted, hsorted'⟩ := exists_sortById hdefined hdefined' h.sound.ids
    h'.sound.ids fun other _ => by rw [hretyped.id]
  have hform' := Fingerprint.eventForm_eq_of_fields hfields'
  rw [hretyped.id, hretyped.name] at hform'
  rw [fingerprint_fst, fingerprint_fst]
  refine Fingerprint.ofEvents_ne_of_exchange (by rw [hdefined.length_eq, hdefined'.length_eq]; rfl)
    hsorted hsorted' (Fingerprint.eventForm_eq_of_fields hfields) hform' rfl (by simp) ?_
  intro hcode
  exact hne (FieldType.code_injective (List.cons.inj hcode).1)

theorem fingerprint_ne_of_renumbered (h : registry.Reachable) (h' : registry'.Reachable)
    {id : UInt32} (hdefined : registry.defined.Perm (event :: others))
    (hdefined' : registry'.defined.Perm ({ event with id } :: others)) (hne : event.id ≠ id)
    (hplace : ∀ other ∈ others, other.id < event.id ↔ other.id < id) :
    registry.fingerprint.1 ≠ registry'.fingerprint.1 := by
  obtain ⟨earlier, later, hsorted, hsorted'⟩ :=
    exists_sortById hdefined hdefined' h.sound.ids h'.sound.ids hplace
  have hform (id : UInt32) : Fingerprint.eventForm { event with id } =
      [] ++ (BigEndian.encode 4 id.toNat ++ (Fingerprint.textForm event.name ++
        (Fingerprint.countForm event.fields.length ++
          event.fields.flatMap Fingerprint.fieldForm))) := by
    simp [Fingerprint.eventForm]
  rw [fingerprint_fst, fingerprint_fst]
  refine Fingerprint.ofEvents_ne_of_exchange (by rw [hdefined.length_eq, hdefined'.length_eq]; rfl)
    hsorted hsorted' (hform event.id) (hform id) (by simp) (by simp) ?_
  intro hsame
  exact hne (Fingerprint.idForm_injective hsame)

end Registry

/-- **Small drifts of a schema show.** Events whose canonical forms are as long as
each other and differ only within a window of four bytes have different fingerprints.
So do registries of the same events but for one, if in the second its field is of
another type of the same group, or its id is another one at the same place among the
ids. -/
theorem Fingerprint.shows_drift :
    (∀ (events events' : List Event) (start : Nat),
      (canonicalForm events).AgreeOutside start 4 (canonicalForm events') →
        canonicalForm events ≠ canonicalForm events' → ofEvents events ≠ ofEvents events') ∧
      ∀ registry registry' : Registry, registry.Reachable → registry'.Reachable →
        ∀ (event : Event) (others : List Event), registry.defined.Perm (event :: others) →
          (∀ event', registry'.defined.Perm (event' :: others) → event.Retyped event' →
            registry.fingerprint.1 ≠ registry'.fingerprint.1) ∧
          ∀ id, registry'.defined.Perm ({ event with id } :: others) → event.id ≠ id →
            (∀ other ∈ others, other.id < event.id ↔ other.id < id) →
            registry.fingerprint.1 ≠ registry'.fingerprint.1 := by
  refine ⟨?_, ?_⟩
  · intro events events' start hagree hne hsame
    exact Crc32.checksum_ne hagree hne (congrArg Fingerprint.value hsame)
  · intro registry registry' h h' event others hdefined
    refine ⟨?_, ?_⟩
    · intro event' hdefined' hretyped
      exact Registry.fingerprint_ne_of_retyped h h' hdefined hdefined' hretyped
    · intro id hdefined' hne hplace
      exact Registry.fingerprint_ne_of_renumbered h h' hdefined hdefined' hne hplace

/-- A registry with two events, of which the second has an id and a field to choose. -/
def driftingRegistry (id : UInt32) (type : FieldType) : Registry :=
  ((Registry.ofSettings {}).perform (.define 500 "say" [])).perform
    (.define id "chat" [⟨"text", .blob .string⟩, ⟨"at", type⟩])

def driftingEvent (id : UInt32) (type : FieldType) : Event :=
  ⟨id, "chat", [⟨"at", type⟩, ⟨"text", .blob .string⟩]⟩

theorem Fingerprint.shows_drift_chat :
    (driftingRegistry 300 (.scalar .int16)).fingerprint.1 ≠
        (driftingRegistry 300 (.scalar .float64)).fingerprint.1 ∧
      (driftingRegistry 300 (.scalar .int16)).fingerprint.1 ≠
        (driftingRegistry 254 (.scalar .int16)).fingerprint.1 := by
  have hreachable (id : UInt32) (type : FieldType) : (driftingRegistry id type).Reachable :=
    .performed (.performed (.created _) _) _
  have hdefined : (driftingRegistry 300 (.scalar .int16)).defined =
      [⟨500, "say", []⟩, driftingEvent 300 (.scalar .int16)] := by cbv
  have hretyped : (driftingRegistry 300 (.scalar .float64)).defined =
      [⟨500, "say", []⟩, driftingEvent 300 (.scalar .float64)] := by cbv
  have hrenumbered : (driftingRegistry 254 (.scalar .int16)).defined =
      [⟨500, "say", []⟩, driftingEvent 254 (.scalar .int16)] := by cbv
  have hdrift (id : UInt32) (type : FieldType) := shows_drift.2
    (driftingRegistry 300 (.scalar .int16)) (driftingRegistry id type) (hreachable ..)
    (hreachable ..) (driftingEvent 300 (.scalar .int16)) [⟨500, "say", []⟩]
    (hdefined ▸ .swap ..)
  constructor
  · refine (hdrift 300 (.scalar .float64)).1 (driftingEvent 300 (.scalar .float64))
      (hretyped ▸ .swap ..) ⟨rfl, rfl, ?_⟩
    exact ⟨"at", .scalar .int16, .scalar .float64, _, .refl _, .refl _, by decide, rfl⟩
  · exact (hdrift 254 (.scalar .int16)).2 254 (hrenumbered ▸ .swap ..) (by decide) (by decide)

end EventWire
