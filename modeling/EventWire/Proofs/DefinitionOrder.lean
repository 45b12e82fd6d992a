/-
EventWire.Proofs.DefinitionOrder — the order of definitions leaves no trace.

Two peers write down the same events, each in an order of its own. They
agree on everything (`Registry.defineAll_of_rearranged`). What a registry
answers is known not to depend on the order of its events
(`Registry.sameAnswers_of_alike`), so what is left is acceptance. Definitions
are accepted together exactly if each is in order, ids and names are distinct
and the compact ones fit within the limit (`Registry.exists_defineAll_iff`),
and nothing of this depends on the order. For a single definition it does:
which of two of one id is refused is a matter of which came first.
-/
import EventWire.Proofs.Catalogue
import EventWire.Proofs.Delivery

namespace EventWire

/-! ## What is accepted together -/

namespace Definition

/-- Whether the id takes one byte only. -/
def isCompact (definition : Definition) : Bool := !decide (maxCompactId < definition.id)

/-- The same definitions in another order, each with its fields in another
order. -/
def Rearranged (as bs : List Definition) : Prop :=
  ∃ middle, as.Perm middle ∧ List.Forall₂ Same middle bs

variable {as bs : List Definition}

/-- What does not depend on the order of fields is rearranged with the
definitions. -/
theorem Rearranged.map_perm {α : Type} {f : Definition → α} (h : Rearranged as bs)
    (hf : ∀ a b : Definition, a.Same b → f a = f b) : (as.map f).Perm (bs.map f) := by
  obtain ⟨middle, hperm, hsame⟩ := h
  have heq : List.Forall₂ Eq (middle.map f) (bs.map f) := by
    rw [List.forall₂_map_left_iff, List.forall₂_map_right_iff]
    exact hsame.imp fun a b h => hf a b h
  rw [List.forall₂_eq_eq_eq] at heq
  exact heq ▸ hperm.map f

theorem exists_mem_of_forall₂ {α β : Type} {R : α → β → Prop} {xs : List α} {ys : List β}
    (h : List.Forall₂ R xs ys) : ∀ x ∈ xs, ∃ y ∈ ys, R x y := by
  induction h with
  | nil => simp
  | @cons x y xs ys hxy _ ih =>
    intro other hother
    rcases List.mem_cons.mp hother with rfl | hlater
    · exact ⟨y, List.mem_cons_self, hxy⟩
    · obtain ⟨z, hz, hrel⟩ := ih other hlater
      exact ⟨z, List.mem_cons_of_mem _ hz, hrel⟩

theorem Rearranged.sameEvents (h : Rearranged as bs) : SameEvents as bs := by
  obtain ⟨middle, hperm, hsame⟩ := h
  constructor
  · intro a ha
    exact exists_mem_of_forall₂ hsame a (hperm.mem_iff.mp ha)
  · intro b hb
    obtain ⟨a, ha, hab⟩ := exists_mem_of_forall₂ hsame.flip b hb
    exact ⟨a, hperm.mem_iff.mpr ha, hab⟩

end Definition

namespace Registry

variable {registry : Registry}

/-- Definitions that a registry accepts, one after the other. -/
structure Admits (registry : Registry) (definitions : List Definition) : Prop where
  valid : ∀ definition ∈ definitions, ∃ event, definition.event = .ok event
  ids : (registry.defined.map Event.id ++ definitions.map Definition.id).Nodup
  names : (registry.defined.map Event.name ++ definitions.map Definition.name).Nodup
  compact : registry.compactCount + definitions.countP Definition.isCompact ≤
    registry.settings.maxCompactEvents

/-- A definition on the list of those to come, or its event among those that
are there: it comes to the same. -/
theorem admits_add_iff {definition : Definition} {definitions : List Definition} {event : Event}
    (hevent : definition.event = .ok event) :
    (registry.add event).Admits definitions ↔ registry.Admits (definition :: definitions) := by
  obtain ⟨hid, hname⟩ := Event.id_name_of_define hevent
  have hids : (registry.add event).defined.map Event.id ++ definitions.map Definition.id =
      registry.defined.map Event.id ++ (definition :: definitions).map Definition.id := by
    simp [defined_add, hid]
  have hnames : (registry.add event).defined.map Event.name ++ definitions.map Definition.name =
      registry.defined.map Event.name ++ (definition :: definitions).map Definition.name := by
    simp [defined_add, hname]
  have hcount : (registry.add event).compactCount + definitions.countP Definition.isCompact =
      registry.compactCount + (definition :: definitions).countP Definition.isCompact := by
    have hcompact : (!event.isExtended) = definition.isCompact := by
      rw [Event.isExtended, Definition.isCompact, hid]
    simp only [compactCount, defined_add, List.countP_append, List.countP_cons, List.countP_nil,
      hcompact]
    omega
  constructor
  · intro h
    refine ⟨?_, hids ▸ h.ids, hnames ▸ h.names, hcount ▸ h.compact⟩
    intro other hother
    rcases List.mem_cons.mp hother with rfl | hlater
    · exact ⟨event, hevent⟩
    · exact h.valid other hlater
  · intro h
    refine ⟨?_, hids ▸ h.ids, hnames ▸ h.names, hcount ▸ h.compact⟩
    intro other hother
    exact h.valid other (List.mem_cons_of_mem _ hother)

/-- There is room for the first of some definitions that are admitted. -/
theorem Admits.checkRoom {definition : Definition} {definitions : List Definition} {event : Event}
    (h : registry.Admits (definition :: definitions)) (hevent : definition.event = .ok event) :
    registry.checkRoom event = .ok () := by
  obtain ⟨hid, hname⟩ := Event.id_name_of_define hevent
  refine checkRoom_eq_ok_iff.mpr ⟨?_, ?_, ?_⟩
  · intro hmem
    exact List.disjoint_of_nodup_append h.ids hmem (by simp [hid])
  · intro hmem
    exact List.disjoint_of_nodup_append h.names hmem (by simp [hname])
  · intro hcompact
    have hlimit := h.compact
    have hone : definition.isCompact := by
      rw [Definition.isCompact, ← hid]
      simpa [Event.isExtended] using hcompact
    rw [List.countP_cons_of_pos hone] at hlimit
    omega

/-- **Which definitions are accepted together.** -/
theorem exists_defineAll_iff (hsound : registry.schema.Sound) (hunused : registry.isFrozen = false)
    {definitions : List Definition} :
    (∃ after, registry.defineAll definitions = .ok after) ↔ registry.Admits definitions := by
  induction definitions generalizing registry with
  | nil =>
    refine ⟨fun _ => ⟨by simp, ?_, ?_, ?_⟩, fun _ => ⟨registry, rfl⟩⟩
    · rw [List.map_nil, List.append_nil]
      exact hsound.ids
    · rw [List.map_nil, List.append_nil]
      exact hsound.names
    · exact hsound.compact
  | cons definition definitions ih =>
    constructor
    · rintro ⟨after, hdefine⟩
      obtain ⟨next, hnext, hrest⟩ := defineAll_cons_eq_ok_iff.mp hdefine
      have hadmits := (ih (sound_define hsound hnext) (isFrozen_define hnext)).mp ⟨after, hrest⟩
      obtain ⟨-, event, hevent, -, rfl⟩ := define_eq_ok_iff.mp hnext
      exact (admits_add_iff hevent).mp hadmits
    · intro hadmits
      obtain ⟨event, hevent⟩ := hadmits.valid definition List.mem_cons_self
      have hnext : registry.define definition.id definition.name definition.fields =
          .ok (registry.add event) :=
        define_eq_ok_iff.mpr ⟨hunused, event, hevent, hadmits.checkRoom hevent, rfl⟩
      obtain ⟨after, hrest⟩ := (ih (sound_define hsound hnext) (isFrozen_define hnext)).mpr
        ((admits_add_iff hevent).mpr hadmits)
      exact ⟨after, defineAll_cons_eq_ok_iff.mpr ⟨registry.add event, hnext, hrest⟩⟩

/-- Nothing of it depends on the order. -/
theorem Admits.of_rearranged {definitions definitions' : List Definition}
    (h : registry.Admits definitions) (hsame : Definition.Rearranged definitions definitions') :
    registry.Admits definitions' where
  valid := by
    intro definition' hmem
    obtain ⟨definition, hdefinition, hfields⟩ := hsame.sameEvents.2 definition' hmem
    obtain ⟨event, hevent⟩ := h.valid definition hdefinition
    exact ⟨event, hfields.event_eq hevent⟩
  ids := by
    have hperm := hsame.map_perm fun _ _ h => h.id
    exact (hperm.append_left _).nodup_iff.mp h.ids
  names := by
    have hperm := hsame.map_perm fun _ _ h => h.name
    exact (hperm.append_left _).nodup_iff.mp h.names
  compact := by
    have hperm := hsame.map_perm (f := Definition.isCompact) fun a b h => by
      rw [Definition.isCompact, Definition.isCompact, h.id]
    have hcount := hperm.countP_eq id
    rw [List.countP_map, List.countP_map] at hcount
    exact hcount ▸ h.compact

/-- **Peers agree, whatever the order of definition.** What one registry
accepts entirely, another with the same settings accepts in any other order,
of the events and of the fields of each event; and the two cannot be told
apart by what they answer. -/
theorem defineAll_of_rearranged {settings : RegistrySettings}
    {definitions definitions' : List Definition} {first : Registry}
    (hsame : Definition.Rearranged definitions definitions')
    (hfirst : (ofSettings settings).defineAll definitions = .ok first) :
    ∃ second, (ofSettings settings).defineAll definitions' = .ok second ∧
      first.SameAnswers second := by
  have hempty : (ofSettings settings).schema.Sound := Schema.sound_empty settings
  have hadmits := (exists_defineAll_iff hempty rfl).mp ⟨first, hfirst⟩
  obtain ⟨second, hsecond⟩ := (exists_defineAll_iff hempty rfl).mpr (hadmits.of_rearranged hsame)
  have hsound := sound_defineAll hempty hfirst
  have hsound' := sound_defineAll hempty hsecond
  obtain ⟨events, hschema, -⟩ := schema_defineAll hfirst
  obtain ⟨events', hschema', -⟩ := schema_defineAll hsecond
  refine ⟨second, hsecond, sameAnswers_of_alike ⟨?_, ?_⟩ hsound⟩
  · rw [hschema, hschema']
  · refine (List.perm_ext_iff_of_nodup hsound.ids.of_map hsound'.ids.of_map).mpr ?_
    exact mem_defined_iff hsame.sameEvents hfirst hsecond

theorem rearranged_talk : Definition.Rearranged talkDefinitions talkDefinitions' :=
  ⟨_, .swap .., .cons ⟨rfl, rfl, .swap ..⟩ (.cons ⟨rfl, rfl, .refl _⟩ .nil)⟩

theorem defineAll_of_rearranged_talk :
    Definition.Rearranged talkDefinitions talkDefinitions' ∧
      (ofSettings { typecheck := false }).defineAll talkDefinitions = .ok talkSender ∧
      ∃ second, (ofSettings { typecheck := false }).defineAll talkDefinitions' = .ok second ∧
        talkSender.SameAnswers second := by
  have hfirst : (ofSettings { typecheck := false }).defineAll talkDefinitions =
      .ok talkSender := by cbv
  exact ⟨rearranged_talk, hfirst, defineAll_of_rearranged rearranged_talk hfirst⟩

end Registry

end EventWire
