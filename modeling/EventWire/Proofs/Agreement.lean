/-
EventWire.Proofs.Agreement — peers that define the same events.

Two peers write down one protocol, each in an order of its own: the events
in any order, and the fields of each event in any order. Both registries
then have the same events (`Registry.mem_defined_iff`), though not in the
same order, and a sound schema finds an event by id or name wherever it
stands. What a peer chooses for itself, type checking and the limit on
compact events, has no part in it.
-/
import EventWire.Proofs.RegistrySchema

namespace EventWire

/-- What a definition of an event is given. -/
structure Definition where
  id : UInt32
  name : String
  fields : List Field

namespace Definition

/-- The event that a definition gives. -/
def event (definition : Definition) : Except SchemaError Event :=
  Event.define definition.id definition.name definition.fields

/-- The same event, with its fields in any order. -/
structure Same (a b : Definition) : Prop where
  id : a.id = b.id
  name : a.name = b.name
  fields : a.fields.Perm b.fields

theorem Same.symm {a b : Definition} (h : a.Same b) : b.Same a :=
  ⟨h.id.symm, h.name.symm, h.fields.symm⟩

theorem Same.event_eq {a b : Definition} (h : a.Same b) {event : Event}
    (hevent : a.event = .ok event) : b.event = .ok event := by
  unfold Definition.event at hevent ⊢
  rw [← h.id, ← h.name]
  exact Event.define_of_perm hevent h.fields

/-- The same events, in any order. -/
def SameEvents (as bs : List Definition) : Prop :=
  (∀ a ∈ as, ∃ b ∈ bs, a.Same b) ∧ (∀ b ∈ bs, ∃ a ∈ as, a.Same b)

end Definition

namespace Registry

variable {registry after : Registry}

/-- The registry after all of some definitions have been accepted. -/
def defineAll (registry : Registry) (definitions : List Definition) :
    Except SchemaError Registry :=
  definitions.foldlM (fun registry definition =>
    registry.define definition.id definition.name definition.fields) registry

theorem defineAll_cons_eq_ok_iff {definition : Definition} {definitions : List Definition} :
    registry.defineAll (definition :: definitions) = .ok after ↔
      ∃ next, registry.define definition.id definition.name definition.fields = .ok next ∧
        next.defineAll definitions = .ok after := by
  rw [defineAll, List.foldlM_cons, bind_eq_ok_iff]
  rfl

theorem sound_defineAll {definitions : List Definition} (h : registry.schema.Sound)
    (hdefine : registry.defineAll definitions = .ok after) : after.schema.Sound := by
  induction definitions generalizing registry with
  | nil =>
    cases hdefine
    exact h
  | cons definition definitions ih =>
    obtain ⟨next, hnext, hrest⟩ := defineAll_cons_eq_ok_iff.mp hdefine
    exact ih (sound_define h hnext) hrest

theorem mem_defined_define {definition : Definition}
    (hdefine : registry.define definition.id definition.name definition.fields = .ok after)
    (event : Event) :
    event ∈ after.defined ↔ event ∈ registry.defined ∨ definition.event = .ok event := by
  obtain ⟨-, added, hadded, -, rfl⟩ := define_eq_ok_iff.mp hdefine
  rw [defined_add, List.mem_append, List.mem_singleton, Definition.event, hadded,
    Except.ok.injEq, eq_comm (a := event)]

/-- Accepted definitions add their events, and nothing else. -/
theorem mem_defined_defineAll {definitions : List Definition}
    (hdefine : registry.defineAll definitions = .ok after) (event : Event) :
    event ∈ after.defined ↔
      event ∈ registry.defined ∨ ∃ definition ∈ definitions, definition.event = .ok event := by
  induction definitions generalizing registry with
  | nil =>
    cases hdefine
    simp
  | cons definition definitions ih =>
    obtain ⟨next, hnext, hrest⟩ := defineAll_cons_eq_ok_iff.mp hdefine
    rw [ih hrest, mem_defined_define hnext, List.exists_mem_cons_iff, or_assoc]

/-- Accepted definitions add one event each, in their order, and change
nothing else. -/
theorem schema_defineAll {definitions : List Definition}
    (hdefine : registry.defineAll definitions = .ok after) :
    ∃ events, after.schema = ⟨registry.settings, registry.defined ++ events⟩ ∧
      List.Forall₂ (fun definition event => definition.event = .ok event) definitions events := by
  induction definitions generalizing registry with
  | nil =>
    cases hdefine
    exact ⟨[], by rw [List.append_nil]; rfl, .nil⟩
  | cons definition definitions ih =>
    obtain ⟨next, hnext, hrest⟩ := defineAll_cons_eq_ok_iff.mp hdefine
    obtain ⟨-, event, hevent, -, rfl⟩ := define_eq_ok_iff.mp hnext
    obtain ⟨events, hschema, hgiven⟩ := ih hrest
    refine ⟨event :: events, ?_, .cons hevent hgiven⟩
    rw [hschema, defined_add, List.append_assoc, List.singleton_append]
    rfl

variable {definitions definitions' : List Definition} {settings settings' : RegistrySettings}
  {sender receiver : Registry}

theorem mem_defined_of_same (hsame : ∀ a ∈ definitions, ∃ b ∈ definitions', a.Same b)
    (hsender : (ofSettings settings).defineAll definitions = .ok sender)
    (hreceiver : (ofSettings settings').defineAll definitions' = .ok receiver)
    {event : Event} (h : event ∈ sender.defined) : event ∈ receiver.defined := by
  rcases (mem_defined_defineAll hsender event).mp h with hempty | hdefined
  · exact nomatch hempty
  · obtain ⟨definition, hmem, hevent⟩ := hdefined
    obtain ⟨definition', hmem', hdefinition⟩ := hsame definition hmem
    exact (mem_defined_defineAll hreceiver event).mpr
      (.inr ⟨definition', hmem', hdefinition.event_eq hevent⟩)

/-- **Peers agree on the events**, whatever the order in which they define
them and their fields, and whatever else they choose. -/
theorem mem_defined_iff (hsame : Definition.SameEvents definitions definitions')
    (hsender : (ofSettings settings).defineAll definitions = .ok sender)
    (hreceiver : (ofSettings settings').defineAll definitions' = .ok receiver)
    (event : Event) : event ∈ sender.defined ↔ event ∈ receiver.defined := by
  refine ⟨mem_defined_of_same hsame.1 hsender hreceiver,
    mem_defined_of_same ?_ hreceiver hsender⟩
  intro b hb
  obtain ⟨a, ha, hab⟩ := hsame.2 b hb
  exact ⟨a, ha, hab.symm⟩

end Registry

end EventWire
