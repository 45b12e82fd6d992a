/-
EventWire.Proofs.SchemaForm — the canonical form tells which events it is of.

A fingerprint sums up the canonical form, so it can only tell schemas apart whose forms
differ. They do. Nothing marks the end of a text or of a list in a form, but each comes
after its length, so whatever follows a part, the part tells what it is of and where it
ends (`Fingerprint.SelfDelimiting`). This is kept on the way from counts to texts, from
texts to fields, from parts to lists of parts, and so to events
(`selfDelimiting_eventForm`). If one length or count were left out, it would be lost
there.

Lengths and counts have four bytes, and of a greater one only the remainder is in the
form. So they have to be below 2 ^ 32 (`Fingerprint.Countable`).

A form lists its events by id, those of one id in the order in which they were given.
What it tells is this list, which is settled by the events of each id
(`StablySorted.eq`), and if no id comes twice the order has left no trace.

A fingerprint need not put the form together: it may take the form part by part and keep
a register only (`Fingerprint.streamed_eq`).
-/
import EventWire.Proofs.SchemaDrift

namespace EventWire

/-! ## Events by id, each id in the order given -/

/-- The second list has the events of the first by id, those of one id in the order of
the first. -/
structure StablySorted (events sorted : List Event) : Prop where
  ascending : sorted.Pairwise fun a b => a.id ≤ b.id
  stable : ∀ id, sorted.filter (·.id = id) = events.filter (·.id = id)

/-- Events of one id are ascending as they stand, so sorting leaves them alone. -/
theorem stablySorted_sortById (events : List Event) :
    StablySorted events (Fingerprint.sortById events) where
  ascending := pairwise_sortById events
  stable id := by
    have hpairwise : (events.filter (·.id = id)).Pairwise fun a b => decide (a.id ≤ b.id) := by
      refine List.pairwise_of_forall_mem_list fun a ha b hb => ?_
      have ha' : a.id = id := by simpa using (List.mem_filter.mp ha).2
      have hb' : b.id = id := by simpa using (List.mem_filter.mp hb).2
      simp [ha', hb']
    have hsublist : (events.filter (·.id = id)).Sublist (Fingerprint.sortById events) :=
      List.sublist_mergeSort Event.decide_id_le_trans Event.decide_id_le_total hpairwise
        List.filter_sublist
    have hkept := hsublist.filter (·.id = id)
    simp only [List.filter_filter, Bool.and_self] at hkept
    exact (hkept.eq_of_length ((sortById_perm events).filter _).length_eq.symm).symm

theorem mem_iff_of_filter_id_eq {events events' : List Event}
    (h : ∀ id : UInt32, events.filter (·.id = id) = events'.filter (·.id = id)) {event : Event} :
    event ∈ events ↔ event ∈ events' := by
  have hmem (list : List Event) : event ∈ list ↔ event ∈ list.filter (·.id = event.id) := by
    simp
  rw [hmem events, hmem events', h event.id]

theorem id_head_le {event other : Event} {rest : List Event}
    (h : (event :: rest).Pairwise fun a b => a.id ≤ b.id) (hmem : other ∈ event :: rest) :
    event.id ≤ other.id := by
  rcases List.mem_cons.mp hmem with rfl | hmem
  · exact UInt32.le_refl _
  · exact (List.pairwise_cons.mp h).1 other hmem

/-- Events by id are told by the events of each id. -/
theorem eq_of_filter_id_eq {events events' : List Event}
    (hascending : events.Pairwise fun a b => a.id ≤ b.id)
    (hascending' : events'.Pairwise fun a b => a.id ≤ b.id)
    (h : ∀ id : UInt32, events.filter (·.id = id) = events'.filter (·.id = id)) :
    events = events' := by
  induction events generalizing events' with
  | nil =>
    cases events' with
    | nil => rfl
    | cons event' rest' => simpa using h event'.id
  | cons event rest ih =>
    cases events' with
    | nil => simpa using h event.id
    | cons event' rest' =>
      have hid : event.id = event'.id := by
        have hmem : event' ∈ event :: rest :=
          (mem_iff_of_filter_id_eq h).mpr List.mem_cons_self
        have hmem' : event ∈ event' :: rest' :=
          (mem_iff_of_filter_id_eq h).mp List.mem_cons_self
        exact UInt32.le_antisymm (id_head_le hascending hmem) (id_head_le hascending' hmem')
      have hfirst := h event.id
      simp only [List.filter_cons, hid, decide_true, if_true, List.cons.injEq] at hfirst
      obtain ⟨rfl, -⟩ := hfirst
      refine congrArg (event :: ·) (ih (List.pairwise_cons.mp hascending).2
        (List.pairwise_cons.mp hascending').2 fun id => ?_)
      have hrest := h id
      by_cases hsame : event.id = id
      · simpa [List.filter_cons, hsame] using hrest
      · simpa [List.filter_cons, hsame] using hrest

namespace StablySorted

variable {events sorted sorted' : List Event}

theorem mem_iff (h : StablySorted events sorted) {event : Event} :
    event ∈ sorted ↔ event ∈ events :=
  mem_iff_of_filter_id_eq h.stable

/-- There is one way to list events by id that keeps the order in each id. -/
theorem eq (h : StablySorted events sorted) (h' : StablySorted events sorted') :
    sorted = sorted' :=
  eq_of_filter_id_eq h.ascending h'.ascending fun id => by rw [h.stable, h'.stable]

end StablySorted

namespace Fingerprint

/-! ## What a form tells, whatever follows it -/

/-- One more than the greatest count or length that four bytes hold. -/
def countLimit : Nat := 2 ^ 32

/-- Whatever follows it, the form of a value tells which value that is and where the
form ends. -/
def SelfDelimiting {α : Type} (valid : α → Prop) (form : α → Bytes) : Prop :=
  ∀ ⦃a b : α⦄, valid a → valid b → ∀ ⦃rest rest' : Bytes⦄,
    form a ++ rest = form b ++ rest' → a = b ∧ rest = rest'

theorem countForm_injective {m n : Nat} (hm : m < countLimit) (hn : n < countLimit)
    (h : countForm m = countForm n) : m = n := by
  have hcapacity : countLimit = BigEndian.capacity 4 := by decide
  rw [hcapacity] at hm hn
  rw [← BigEndian.decode_encode hm, ← BigEndian.decode_encode hn]
  exact congrArg BigEndian.decode h

theorem selfDelimiting_countForm : SelfDelimiting (· < countLimit) countForm := by
  intro m n hm hn rest rest' h
  obtain ⟨hcount, hrest⟩ := List.append_inj h (by simp [countForm])
  exact ⟨countForm_injective hm hn hcount, hrest⟩

theorem selfDelimiting_idForm :
    SelfDelimiting (fun _ => True) fun id : UInt32 => BigEndian.encode 4 id.toNat := by
  intro id id' _ _ rest rest' h
  obtain ⟨hid, hrest⟩ := List.append_inj h (by simp)
  exact ⟨idForm_injective hid, hrest⟩

/-- The length before a text tells where the text ends. -/
theorem selfDelimiting_textForm :
    SelfDelimiting (fun s => (Utf8.encode s).length < countLimit) textForm := by
  intro s t hs ht rest rest' h
  simp only [textForm, List.append_assoc] at h
  obtain ⟨hlength, hcontent⟩ := selfDelimiting_countForm hs ht h
  obtain ⟨htext, hrest⟩ := List.append_inj hcontent hlength
  exact ⟨Utf8.encode_injective htext, hrest⟩

section Lists

variable {α : Type} {valid : α → Prop} {form : α → Bytes}

theorem SelfDelimiting.flatMap (h : SelfDelimiting valid form) {xs ys : List α}
    (hxs : ∀ x ∈ xs, valid x) (hys : ∀ y ∈ ys, valid y) (hlength : xs.length = ys.length)
    {rest rest' : Bytes} (hform : xs.flatMap form ++ rest = ys.flatMap form ++ rest') :
    xs = ys ∧ rest = rest' := by
  induction xs generalizing ys with
  | nil =>
    obtain rfl := List.eq_nil_of_length_eq_zero hlength.symm
    exact ⟨rfl, hform⟩
  | cons x xs ih =>
    obtain ⟨y, ys, rfl⟩ := List.exists_cons_of_length_eq_add_one hlength.symm
    simp only [List.flatMap_cons, List.append_assoc] at hform
    obtain ⟨rfl, htail⟩ := h (hxs x List.mem_cons_self) (hys y List.mem_cons_self) hform
    obtain ⟨rfl, hrest⟩ := ih (fun z hz => hxs z (List.mem_cons_of_mem _ hz))
      (fun z hz => hys z (List.mem_cons_of_mem _ hz)) (Nat.succ.inj hlength) htail
    exact ⟨rfl, hrest⟩

/-- The count before a list tells where the list ends, if each part tells where it
ends. -/
theorem SelfDelimiting.counted (h : SelfDelimiting valid form) :
    SelfDelimiting (fun xs : List α => xs.length < countLimit ∧ ∀ x ∈ xs, valid x)
      fun xs => countForm xs.length ++ xs.flatMap form := by
  intro xs ys hxs hys rest rest' hform
  simp only [List.append_assoc] at hform
  obtain ⟨hlength, hparts⟩ := selfDelimiting_countForm hxs.1 hys.1 hform
  exact h.flatMap hxs.2 hys.2 hlength hparts

end Lists

/-! ## Schemas -/

/-- The form has room for the length of the field's name. -/
def CountableField (field : Field) : Prop := (Utf8.encode field.name).length < countLimit

/-- The form has room for the number of fields and for the length of each name. -/
structure CountableEvent (event : Event) : Prop where
  name : (Utf8.encode event.name).length < countLimit
  count : event.fields.length < countLimit
  fields : ∀ field ∈ event.fields, CountableField field

/-- The form has room for all counts and lengths. -/
structure Countable (events : List Event) : Prop where
  count : events.length < countLimit
  events : ∀ event ∈ events, CountableEvent event

theorem selfDelimiting_fieldForm : SelfDelimiting CountableField fieldForm := by
  intro a b ha hb rest rest' h
  simp only [fieldForm, List.append_assoc] at h
  obtain ⟨hname, htype⟩ := selfDelimiting_textForm ha hb h
  obtain ⟨hcode, hrest⟩ := List.cons.inj htype
  cases a
  cases b
  cases hname
  cases FieldType.code_injective hcode
  exact ⟨rfl, hrest⟩

/-- The parts of an event's form are told one after the other. -/
theorem selfDelimiting_eventForm : SelfDelimiting CountableEvent eventForm := by
  intro a b ha hb rest rest' h
  rw [eventForm, eventForm, List.append_assoc, List.append_assoc, List.append_assoc,
    List.append_assoc] at h
  obtain ⟨hid, hafter⟩ := selfDelimiting_idForm trivial trivial h
  obtain ⟨hname, hlast⟩ := selfDelimiting_textForm ha.name hb.name hafter
  obtain ⟨hfields, hrest⟩ :=
    selfDelimiting_fieldForm.counted ⟨ha.count, ha.fields⟩ ⟨hb.count, hb.fields⟩ hlast
  cases a
  cases b
  cases hid
  cases hname
  cases hfields
  exact ⟨rfl, hrest⟩

theorem canonicalForm_eq_counted (events : List Event) :
    canonicalForm events =
      countForm (sortById events).length ++ (sortById events).flatMap eventForm := by
  rw [canonicalForm, (sortById_perm events).length_eq]

theorem Countable.sortById {events : List Event} (h : Countable events) :
    (Fingerprint.sortById events).length < countLimit ∧
      ∀ event ∈ Fingerprint.sortById events, CountableEvent event := by
  refine ⟨(sortById_perm events).length_eq ▸ h.count, fun event hevent => ?_⟩
  exact h.events event ((sortById_perm events).mem_iff.mp hevent)

/-- **The form tells the events by id.** -/
theorem canonicalForm_eq_iff {events events' : List Event} (h : Countable events)
    (h' : Countable events') :
    canonicalForm events = canonicalForm events' ↔ sortById events = sortById events' := by
  rw [canonicalForm_eq_counted, canonicalForm_eq_counted]
  constructor
  · intro hform
    exact (selfDelimiting_eventForm.counted h.sortById h'.sortById
      (congrArg (· ++ []) hform)).1
  · intro hsorted
    rw [hsorted]

theorem canonicalForm_of_perm {events events' : List Event} (h : events.Perm events')
    (hnodup : (events.map Event.id).Nodup) : canonicalForm events = canonicalForm events' := by
  rw [canonicalForm, canonicalForm, sortById_of_perm h hnodup, h.length_eq]

/-! ## A register in place of the form -/

/-- The register after some bytes. -/
def absorb (register : BitVec 32) (bs : Bytes) : BitVec 32 := bs.foldl Crc32.update register

def absorbText (register : BitVec 32) (s : String) : BitVec 32 :=
  absorb (absorb register (countForm (Utf8.encode s).length)) (Utf8.encode s)

def absorbField (register : BitVec 32) (field : Field) : BitVec 32 :=
  absorb (absorbText register field.name) [field.type.code]

def absorbEvent (register : BitVec 32) (event : Event) : BitVec 32 :=
  let named := absorbText (absorb register (BigEndian.encode 4 event.id.toNat)) event.name
  event.fields.foldl absorbField (absorb named (countForm event.fields.length))

/-- The fingerprint, from a register that takes one part after the other. -/
def streamed (events : List Event) : Fingerprint :=
  let sorted := sortById events
  let counted := absorb (.allOnes 32) (countForm sorted.length)
  ⟨⟨~~~ sorted.foldl absorbEvent counted⟩⟩

theorem absorb_append (register : BitVec 32) (as bs : Bytes) :
    absorb register (as ++ bs) = absorb (absorb register as) bs :=
  List.foldl_append

/-- Parts that are taken one after the other are taken as one. -/
theorem foldl_absorb {α : Type} {step : BitVec 32 → α → BitVec 32} {form : α → Bytes}
    (hstep : ∀ register a, step register a = absorb register (form a)) (register : BitVec 32)
    (xs : List α) : xs.foldl step register = absorb register (xs.flatMap form) := by
  induction xs generalizing register with
  | nil => rfl
  | cons x xs ih => rw [List.foldl_cons, ih, hstep, List.flatMap_cons, absorb_append]

theorem absorbText_eq (register : BitVec 32) (s : String) :
    absorbText register s = absorb register (textForm s) :=
  (absorb_append ..).symm

theorem absorbField_eq (register : BitVec 32) (field : Field) :
    absorbField register field = absorb register (fieldForm field) := by
  rw [absorbField, absorbText_eq, fieldForm, absorb_append]

theorem absorbEvent_eq (register : BitVec 32) (event : Event) :
    absorbEvent register event = absorb register (eventForm event) := by
  simp only [absorbEvent, eventForm, absorb_append, absorbText_eq, foldl_absorb absorbField_eq]

/-- The register comes to the sum of the form. -/
theorem streamed_eq (events : List Event) :
    streamed events = ⟨Crc32.checksum (canonicalForm events)⟩ := by
  rw [canonicalForm_eq_counted, streamed]
  simp only [foldl_absorb absorbEvent_eq, ← absorb_append]
  rfl

/-- **A fingerprint is the checksum of a form that tells the events.** The fingerprint
of events, taken part by part, is the checksum of their canonical form. Where four bytes
hold all counts and lengths, forms are equal exactly if the events are, listed by id and
in each id in the order given. If no id comes twice, any order gives the same form and
the same fingerprint. So registries with different events and one fingerprint have
different forms with one checksum. -/
theorem tells_events (events events' : List Event) :
    streamed events = ⟨Crc32.checksum (canonicalForm events)⟩ ∧
      ofEvents events = streamed events ∧
      (Countable events → Countable events' → ∀ sorted sorted', StablySorted events sorted →
        StablySorted events' sorted' →
          (canonicalForm events = canonicalForm events' ↔ sorted = sorted')) ∧
      ((events.map Event.id).Nodup → events.Perm events' →
        canonicalForm events = canonicalForm events' ∧ ofEvents events = ofEvents events') ∧
      ∀ registry registry' : Registry, registry.defined = events → registry'.defined = events' →
        Countable events → Countable events' → (∃ event, ¬ (event ∈ events ↔ event ∈ events')) →
        registry.fingerprint.1 = registry'.fingerprint.1 →
          canonicalForm events ≠ canonicalForm events' ∧
            Crc32.checksum (canonicalForm events) = Crc32.checksum (canonicalForm events') := by
  refine ⟨streamed_eq events, (streamed_eq events).symm, ?_, ?_, ?_⟩
  · intro h h' sorted sorted' hsorted hsorted'
    rw [canonicalForm_eq_iff h h', hsorted.eq (stablySorted_sortById events),
      hsorted'.eq (stablySorted_sortById events')]
  · intro hnodup hperm
    exact ⟨canonicalForm_of_perm hperm hnodup, ofEvents_of_perm hperm hnodup⟩
  · rintro registry registry' rfl rfl h h' ⟨event, hevent⟩ hsame
    rw [Registry.fingerprint_fst, Registry.fingerprint_fst] at hsame
    refine ⟨fun hform => hevent ?_, congrArg Fingerprint.value hsame⟩
    have hsorted := (canonicalForm_eq_iff h h').mp hform
    rw [← (stablySorted_sortById registry.defined).mem_iff, hsorted,
      (stablySorted_sortById registry'.defined).mem_iff]

/-- A registry with one event, which has no fields. -/
def registryNamed (name : String) : Registry := (Registry.ofSettings {}).perform (.define 0 name [])

theorem defined_registryNamed {name : String} (h : Event.checkName name = .ok ()) :
    (registryNamed name).defined = [⟨0, name, []⟩] := by
  have hdefine : Event.define 0 name [] = .ok ⟨0, name, []⟩ :=
    Event.define_eq_ok_iff.mpr
      ⟨h, by simp, by simp, by simp [Event.sortByName, Event.staticFirst]⟩
  simp only [registryNamed, Registry.perform, Registry.define, hdefine]
  rfl

theorem defined_kibifoba : (registryNamed "kibifoba").defined = [⟨0, "kibifoba", []⟩] :=
  defined_registryNamed (by decide +kernel)

theorem defined_gudegada : (registryNamed "gudegada").defined = [⟨0, "gudegada", []⟩] :=
  defined_registryNamed (by decide +kernel)

theorem countable_singleton {id : UInt32} {name : String}
    (h : (Utf8.encode name).length < countLimit) : Countable [⟨id, name, []⟩] where
  count := Nat.one_lt_two_pow (by decide)
  events := by
    intro event hevent
    obtain rfl := List.mem_singleton.mp hevent
    exact ⟨h, Nat.two_pow_pos 32, by simp⟩

/-- Two registries with one fingerprint, and their forms are not the same. -/
theorem tells_events_kibifoba :
    (registryNamed "kibifoba").fingerprint.1 = (registryNamed "gudegada").fingerprint.1 ∧
      canonicalForm (registryNamed "kibifoba").defined ≠
        canonicalForm (registryNamed "gudegada").defined := by
  have hsame : (registryNamed "kibifoba").fingerprint.1 =
      (registryNamed "gudegada").fingerprint.1 := by
    rw [Registry.fingerprint_fst, Registry.fingerprint_fst, defined_kibifoba, defined_gudegada]
    decide +kernel
  obtain ⟨-, -, -, -, hcollision⟩ := tells_events [⟨0, "kibifoba", []⟩] [⟨0, "gudegada", []⟩]
  refine ⟨hsame, ?_⟩
  rw [defined_kibifoba, defined_gudegada]
  refine (hcollision _ _ defined_kibifoba defined_gudegada (countable_singleton ?_)
    (countable_singleton ?_) ⟨⟨0, "kibifoba", []⟩, ?_⟩ hsame).1
  · decide +kernel
  · decide +kernel
  · decide

end Fingerprint
end EventWire
