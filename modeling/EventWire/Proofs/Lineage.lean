/-
EventWire.Proofs.Lineage — what a registry has been through.

A registry is used in many ways: it is asked for codecs and fingerprints,
definitions are added or refused, framers and channels work with it, and
clones of it are taken and go their own way. Its lineage is the list of all
this, what was done with the registry that it is a clone of included.

* `Use` — one use. `Registry.after` is the registry after it.
* `Use.AsksFor` — the events whose codecs a use asks for, told from its
  arguments. A registry is frozen after a use if it was before, or if the use
  has asked for the codec of an event that is defined (`isFrozen_after`), hence
  exactly if some use of its lineage has (`isFrozen_afterAll`).
* `Registry.accepted` — the definitions that were accepted along the way.
  They alone make the schema: to replay them gives it again
  (`exists_replay`).
* `Lineage`, `family` — registries side by side, each with its lineage.
-/
import EventWire.Channel
import EventWire.Proofs.Agreement
import EventWire.Proofs.Turns

namespace EventWire

/-- The header that stands before the records of an event. -/
def Event.header (event : Event) : Header := ⟨event.id, .ofId event.id⟩

theorem Event.header_eq_iff {event : Event} {header : Header} :
    event.header = header ↔ header.isCanonical = true ∧ event.id = header.id := by
  obtain ⟨id, form⟩ := header
  simp only [header, Header.isCanonical, Header.mk.injEq, decide_eq_true_eq]
  constructor
  · rintro ⟨rfl, rfl⟩
    exact ⟨rfl, rfl⟩
  · rintro ⟨rfl, rfl⟩
    exact ⟨rfl, rfl⟩

/-- The framer, given a chunk, comes to the header of an event. A halted one
comes to none. -/
def Framer.MeetsHeader (framer : Framer) (chunk : Bytes) (event : Event) : Prop :=
  framer.halted = none ∧ Header.read? (framer.pending ++ chunk) = some event.header

/-- A framer that is not halted leaves the registry that its drain leaves. -/
theorem Framer.registry_feed {σ : Type} {framer : Framer} (h : framer.halted = none)
    {consumer : Consumer σ} {registry : Registry} {chunk : Bytes} {state : σ} :
    (framer.feed consumer registry chunk state).registry =
      (drain consumer registry framer.offset (framer.pending ++ chunk) 0 state).registry := by
  unfold feed
  rw [h]
  dsimp only
  split
  · rfl
  · split <;> rfl

namespace Registry

variable {registry : Registry}

/-! ## Freezing, look-up by look-up -/

theorem any_isFull_resolveFirst {typecheck : Bool} (wanted : Event → Bool)
    (entries : List (Entry typecheck)) :
    (resolveFirst wanted entries).2.any (·.codec.isFull) =
      (entries.any (·.codec.isFull) || (entries.map (·.event)).any wanted) := by
  induction entries with
  | nil => rfl
  | cons entry rest ih =>
    unfold resolveFirst
    split
    · rename_i hwanted
      simp [hwanted, Entry.compiled]
    · rename_i hother
      simp [hother, ih, Bool.or_assoc]

/-- A registry is frozen by the first codec that it is asked for. -/
theorem isFrozen_resolve (registry : Registry) (wanted : Event → Bool) :
    (registry.resolve wanted).2.isFrozen ↔
      registry.isFrozen ∨ ∃ event ∈ registry.defined, wanted event := by
  show (resolveFirst wanted registry.entries).2.any (·.codec.isFull) = true ↔ _
  rw [any_isFull_resolveFirst, Bool.or_eq_true, List.any_eq_true (p := wanted)]
  rfl

theorem isFrozen_resolveHeader (registry : Registry) (header : Header) :
    (registry.resolveHeader header).2.isFrozen ↔
      registry.isFrozen ∨ ∃ event ∈ registry.defined, event.header = header := by
  simp only [Event.header_eq_iff]
  unfold resolveHeader
  split
  · rename_i hcanonical
    rw [isFrozen_resolve]
    simp [hcanonical]
  · rename_i hother
    simp [hother]

theorem isFrozen_compileAll (registry : Registry) :
    registry.compileAll.2.isFrozen ↔
      registry.isFrozen ∨ ∃ event, event ∈ registry.defined := by
  show (registry.entries.map Entry.compiled).any (·.codec.isFull) = true ↔ _
  unfold isFrozen defined
  cases registry.entries with
  | nil => simp
  | cons entry rest => simp [Entry.compiled]

theorem isFrozen_encode (registry : Registry) (name : String) (record : Record) :
    (registry.encode name record).2.isFrozen ↔
      registry.isFrozen ∨ ∃ event ∈ registry.defined, event.name = name := by
  have hresolve := isFrozen_resolve registry (·.name = name)
  have hafter : (registry.encode name record).2 = (registry.resolve (·.name = name)).2 := by
    unfold encode codecOfName?
    rcases registry.resolve (·.name = name) with ⟨found, after⟩
    cases found <;> rfl
  rw [hafter, hresolve]
  simp

/-- The registry after it has been asked for the codec of the header at the
start of `data`. -/
def afterHeader (registry : Registry) (data : Bytes) : Registry :=
  match Header.read? data with
  | none => registry
  | some header => (registry.resolveHeader header).2

theorem isFrozen_afterHeader (registry : Registry) (data : Bytes) :
    (registry.afterHeader data).isFrozen ↔
      registry.isFrozen ∨ ∃ event ∈ registry.defined, Header.read? data = some event.header := by
  unfold afterHeader
  cases Header.read? data with
  | none => simp
  | some header =>
    rw [isFrozen_resolveHeader]
    simp only [Option.some.injEq, eq_comm (a := header)]

theorem decodeFirst_snd (registry : Registry) (data : Bytes) :
    (registry.decodeFirst data).2 = registry.afterHeader data := by
  unfold decodeFirst afterHeader
  cases Header.read? data with
  | none => rfl
  | some header =>
    dsimp only
    rcases registry.resolveHeader header with ⟨found, after⟩
    cases found <;> rfl

theorem nextFrame_snd (registry : Registry) (offset : Nat) (data : Bytes) :
    (registry.nextFrame offset data).2 = registry.afterHeader data := by
  unfold nextFrame afterHeader
  cases Header.read? data with
  | none => rfl
  | some header =>
    dsimp only [codecOfHeader?]
    rcases registry.resolveHeader header with ⟨found, after⟩
    cases found <;> rfl

/-- What is decoded afterwards has no say in it: encoding has asked for the
codec already. -/
theorem isFrozen_reconstruct (registry : Registry) (name : String) (record : Record) :
    (registry.reconstruct name record).2.isFrozen ↔
      registry.isFrozen ∨ ∃ event ∈ registry.defined, event.name = name := by
  rw [← isFrozen_encode registry name record]
  unfold reconstruct
  split
  · rename_i bytes next hencode
    have hbytes : registry.schema.encode name record = .ok bytes := by
      rw [← encode_fst, hencode]
    have hdefined : ∃ event ∈ registry.defined, event.name = name := by
      unfold Schema.encode at hbytes
      split at hbytes
      · rename_i event codec hresolve
        obtain ⟨hmem, hname, -⟩ := Schema.resolve_eq_some hresolve
        exact ⟨event, hmem, by simpa using hname⟩
      · exact nomatch hbytes
    have hfrozen : next.isFrozen := by
      have := (isFrozen_encode registry name record).mpr (.inr hdefined)
      rwa [hencode] at this
    rw [hencode]
    show (next.decodeFirst bytes).2.isFrozen ↔ _
    rw [decodeFirst_snd, isFrozen_afterHeader]
    simp [hfrozen]
  · rename_i hencode
    rw [hencode]

/-- Behind a whole record lies the header of an event that is defined. -/
theorem header_of_nextFrame_whole {offset size : Nat} {data : Bytes} {event : String}
    {body : Except CodecError Record}
    (h : registry.schema.nextFrame offset data = .whole event size body) :
    ∃ event ∈ registry.defined, Header.read? data = some event.header := by
  unfold Schema.nextFrame at h
  split at h
  · exact nomatch h
  · rename_i header hread
    split at h
    · exact nomatch h
    · rename_i found codec hresolve
      unfold Schema.resolveHeader at hresolve
      split at hresolve
      · rename_i hcanonical
        obtain ⟨hmem, hid, -⟩ := Schema.resolve_eq_some hresolve
        refine ⟨found, hmem, ?_⟩
        rw [Event.header_eq_iff.mpr ⟨hcanonical, by simpa using hid⟩]
        exact hread
      · exact nomatch hresolve

/-- A drain freezes the registry exactly if it comes to the header of an event
that is defined, were there nothing behind it. -/
theorem isFrozen_drain {σ : Type} (consumer : Consumer σ) (registry : Registry) (offset : Nat)
    (data : Bytes) (consumed : Nat) (state : σ) :
    (drain consumer registry offset data consumed state).registry.isFrozen ↔
      registry.isFrozen ∨ ∃ event ∈ registry.defined, Header.read? data = some event.header := by
  have hafter {registry after : Registry} {offset : Nat} {data : Bytes} {frame : Frame}
      (hframe : registry.nextFrame offset data = (frame, after)) :
      after.isFrozen ↔
        registry.isFrozen ∨ ∃ event ∈ registry.defined, Header.read? data = some event.header := by
    rw [← isFrozen_afterHeader, ← nextFrame_snd registry offset, hframe]
  -- behind a whole record the registry is frozen, and stays so
  have hwhole {registry after : Registry} {offset size : Nat} {data : Bytes} {event : String}
      {body : Except CodecError Record}
      (hframe : registry.nextFrame offset data = (.whole event size body, after)) :
      after.isFrozen ∧ ∃ event ∈ registry.defined, Header.read? data = some event.header := by
    have hheader := header_of_nextFrame_whole (nextFrame_eq hframe).1
    exact ⟨(hafter hframe).mpr (.inr hheader), hheader⟩
  fun_induction drain consumer registry offset data consumed state with
  | case1 registry offset data consumed state after hframe => exact hafter hframe
  | case2 registry offset data consumed state error after hframe => exact hafter hframe
  | case3 registry offset data consumed state event size error after hframe ih =>
    obtain ⟨hfrozen, hheader⟩ := hwhole hframe
    simp [ih, hfrozen, hheader]
  | case4 registry offset data consumed state event size record after hframe next hconsume ih =>
    obtain ⟨hfrozen, hheader⟩ := hwhole hframe
    simp [ih, hfrozen, hheader]
  | case5 registry offset data consumed state event size record after hframe error next hconsume =>
    exact hafter hframe

theorem isFrozen_feed {σ : Type} (framer : Framer) (consumer : Consumer σ) (registry : Registry)
    (chunk : Bytes) (state : σ) :
    (framer.feed consumer registry chunk state).registry.isFrozen ↔
      registry.isFrozen ∨ ∃ event ∈ registry.defined, framer.MeetsHeader chunk event := by
  unfold Framer.MeetsHeader
  cases hhalted : framer.halted with
  | some cause => simp [Framer.feed_of_halted hhalted]
  | none =>
    rw [Framer.registry_feed hhalted, isFrozen_drain]
    simp

/-! ## Uses -/

/-- What a registry may be used for. -/
inductive Use where
  /-- All that can be asked of it, definitions included. -/
  | perform (operation : Operation)
  /-- A look at its events, by id, by name or at all of them. -/
  | lookUp
  /-- A framer that works with it is given a chunk. -/
  | feed {σ : Type} (framer : Framer) (consumer : Consumer σ) (chunk : Bytes) (state : σ)
  /-- A channel that works with it sends a record. -/
  | send {α β : Type} (channel : Channel α β) (event : String) (record : Record)
  /-- A channel that works with it is given a chunk. -/
  | receive {α β : Type} (channel : Channel α β) (chunk : Bytes)

/-- The registry after a use. -/
def after (registry : Registry) : Use → Registry
  | .perform operation => registry.perform operation
  | .lookUp => registry
  | .feed framer consumer chunk state => (framer.feed consumer registry chunk state).registry
  | .send channel event record => ({ channel with registry }.send event record).2.registry
  | .receive channel chunk => ({ channel with registry }.receive chunk).2.registry

/-- The events whose codecs a use asks for. With a chunk, that is the event of
the header in front: no other is come to before it. -/
def Use.AsksFor : Use → Event → Prop
  | .perform (.define ..), _ | .perform .fingerprint, _ | .lookUp, _ => False
  | .perform (.codecOfId id), event => event.id = id
  | .perform (.codecOfHeader header), event => event.header = header
  | .perform .compileAll, _ => True
  | .perform (.codecOfName name), event | .perform (.encode name _), event
  | .perform (.reconstruct name _), event | .send _ name _, event => event.name = name
  | .perform (.decodeFirst data), event | .perform (.decode data), event =>
    Header.read? data = some event.header
  | .feed framer _ chunk _, event => framer.MeetsHeader chunk event
  | .receive channel chunk, event => channel.framer.MeetsHeader chunk event

theorem isFrozen_define {id : UInt32} {name : String} {fields : List Field} {next : Registry}
    (h : registry.define id name fields = .ok next) : next.isFrozen = false := by
  obtain ⟨hfrozen, event, -, -, rfl⟩ := define_eq_ok_iff.mp h
  simpa [isFrozen, add] using hfrozen

/-- **What freezes a registry** is that a codec of an event is asked for, and
nothing else; and nothing undoes it. -/
theorem isFrozen_after (registry : Registry) (use : Use) :
    (registry.after use).isFrozen ↔
      registry.isFrozen ∨ ∃ event ∈ registry.defined, use.AsksFor event := by
  cases use with
  | lookUp => simp [after, Use.AsksFor]
  | feed framer consumer chunk state => exact isFrozen_feed ..
  | receive channel chunk => exact isFrozen_feed ..
  | send channel name record =>
    have hsend : ({ channel with registry }.send name record).2.registry =
        (registry.encode name record).2 := by
      unfold Channel.send
      dsimp only
      split <;> rfl
    rw [after, hsend]
    exact isFrozen_encode ..
  | perform operation =>
    cases operation with
    | define id name fields =>
      show ((registry.define id name fields).toOption.getD registry).isFrozen ↔ _
      cases hdefine : registry.define id name fields with
      | error error => simp [Use.AsksFor, Except.toOption]
      | ok next =>
        have hbefore := (define_eq_ok_iff.mp hdefine).1
        simp [Use.AsksFor, Except.toOption, isFrozen_define hdefine, hbefore]
    | codecOfId id => exact (isFrozen_resolve registry (·.id = id)).trans (by simp [Use.AsksFor])
    | codecOfName name =>
      exact (isFrozen_resolve registry (·.name = name)).trans (by simp [Use.AsksFor])
    | codecOfHeader header => exact isFrozen_resolveHeader ..
    | compileAll => exact (isFrozen_compileAll registry).trans (by simp [Use.AsksFor])
    | fingerprint => simp [after, perform, fingerprint, isFrozen, Use.AsksFor]
    | encode name record => exact isFrozen_encode ..
    | decodeFirst data =>
      show (registry.decodeFirst data).2.isFrozen ↔ _
      rw [decodeFirst_snd]
      exact isFrozen_afterHeader ..
    | decode data =>
      show (registry.decodeFirst data).2.isFrozen ↔ _
      rw [decodeFirst_snd]
      exact isFrozen_afterHeader ..
    | reconstruct name record => exact isFrozen_reconstruct ..

/-! ## Accepted definitions -/

/-- The definition that a use makes, if it is accepted. -/
def accepts (registry : Registry) : Use → List Definition
  | .perform (.define id name fields) =>
    match registry.define id name fields with
    | .ok _ => [⟨id, name, fields⟩]
    | .error _ => []
  | _ => []

/-- A use adds an event by an accepted definition, or accepts nothing. -/
theorem accepts_cases (registry : Registry) (use : Use) :
    registry.accepts use = [] ∨ ∃ definition : Definition,
      registry.accepts use = [definition] ∧
        registry.define definition.id definition.name definition.fields =
          .ok (registry.after use) := by
  cases use with
  | perform operation =>
    cases operation with
    | define id name fields =>
      cases hdefine : registry.define id name fields with
      | error error => exact .inl (by simp only [accepts, hdefine])
      | ok next =>
        refine .inr ⟨⟨id, name, fields⟩, by simp only [accepts, hdefine], ?_⟩
        simp only [after, perform, hdefine]
        rfl
    | _ => exact .inl rfl
  | _ => exact .inl rfl

/-- All but an accepted definition leaves the schema as it was. -/
theorem schema_after {use : Use} (h : registry.accepts use = []) :
    (registry.after use).schema = registry.schema := by
  cases use with
  | lookUp => rfl
  | feed framer consumer chunk state =>
    rw [after, Framer.feed_eq_turn]
    exact Framer.schema_turn ..
  | receive channel chunk =>
    show (Framer.feed ..).registry.schema = _
    rw [Framer.feed_eq_turn]
    exact Framer.schema_turn ..
  | send channel name record =>
    unfold after Channel.send
    dsimp only
    split <;> exact schema_encode ..
  | perform operation =>
    cases operation with
    | define id name fields =>
      show ((registry.define id name fields).toOption.getD registry).schema = _
      cases hdefine : registry.define id name fields with
      | error error => rfl
      | ok next => simp [accepts, hdefine] at h
    | _ => simp [after, perform]

theorem define_of_isFrozen (h : registry.isFrozen) {id : UInt32} {name : String}
    {fields : List Field} : registry.define id name fields = .error (.frozen name) := by
  rw [define, if_pos h]

/-- A frozen registry accepts nothing. -/
theorem accepts_of_isFrozen (h : registry.isFrozen) (use : Use) : registry.accepts use = [] := by
  unfold accepts
  split
  · rw [define_of_isFrozen h]
  · rfl

theorem checkRoom_of_schema_eq {other : Registry} (h : registry.schema = other.schema)
    {event : Event} (hroom : registry.checkRoom event = .ok ()) :
    other.checkRoom event = .ok () := by
  obtain ⟨hid, hname, hcompact⟩ := checkRoom_eq_ok_iff.mp hroom
  have hdefined : registry.defined = other.defined := congrArg Schema.events h
  have hsettings : registry.settings = other.settings := congrArg Schema.settings h
  unfold compactCount at hcompact
  rw [hdefined] at hid hname hcompact
  rw [hsettings] at hcompact
  exact checkRoom_eq_ok_iff.mpr ⟨hid, hname, hcompact⟩

/-- What one registry accepts, another of the same schema accepts as well, and
they are of one schema again. -/
theorem define_of_schema_eq {other next : Registry} (h : registry.schema = other.schema)
    (hunused : other.isFrozen = false) {id : UInt32} {name : String} {fields : List Field}
    (hdefine : registry.define id name fields = .ok next) :
    ∃ otherNext, other.define id name fields = .ok otherNext ∧
      next.schema = otherNext.schema := by
  obtain ⟨-, event, hevent, hroom, rfl⟩ := define_eq_ok_iff.mp hdefine
  refine ⟨other.add event,
    define_eq_ok_iff.mpr ⟨hunused, event, hevent, checkRoom_of_schema_eq h hroom, rfl⟩, ?_⟩
  have hdefined : registry.defined = other.defined := congrArg Schema.events h
  have hsettings : registry.settings = other.settings := congrArg Schema.settings h
  rw [schema_add, schema_add, hdefined, hsettings]

/-! ## Lineages -/

/-- The registry after some uses, one after the other. -/
def afterAll (registry : Registry) (uses : List Use) : Registry := uses.foldl after registry

/-- The definitions that are accepted in the course of some uses. -/
def accepted (registry : Registry) : List Use → List Definition
  | [] => []
  | use :: uses => registry.accepts use ++ (registry.after use).accepted uses

/-- In the course of some uses, the codec of an event is asked for that is
defined by then. -/
def EverAsked (registry : Registry) (uses : List Use) : Prop :=
  ∃ earlier use later, uses = earlier ++ use :: later ∧
    ∃ event ∈ (registry.afterAll earlier).defined, use.AsksFor event

theorem everAsked_cons {use : Use} {uses : List Use} :
    registry.EverAsked (use :: uses) ↔
      (∃ event ∈ registry.defined, use.AsksFor event) ∨ (registry.after use).EverAsked uses := by
  constructor
  · rintro ⟨earlier, asking, later, huses, hasks⟩
    cases earlier with
    | nil =>
      obtain ⟨rfl, -⟩ := List.cons.inj huses
      exact .inl hasks
    | cons first earlier =>
      obtain ⟨rfl, hrest⟩ := List.cons.inj huses
      exact .inr ⟨earlier, asking, later, hrest, hasks⟩
  · rintro (hasks | ⟨earlier, asking, later, rfl, hasks⟩)
    · exact ⟨[], use, uses, rfl, hasks⟩
    · exact ⟨use :: earlier, asking, later, rfl, hasks⟩

/-- **Freezing is exact**: a registry is frozen once the codec of a defined
event has been asked for, and not before. -/
theorem isFrozen_afterAll (registry : Registry) (uses : List Use) :
    (registry.afterAll uses).isFrozen ↔ registry.isFrozen ∨ registry.EverAsked uses := by
  induction uses generalizing registry with
  | nil => simp [afterAll, EverAsked]
  | cons use uses ih =>
    rw [everAsked_cons, ← or_assoc, ← isFrozen_after]
    exact ih (registry.after use)

/-- **Freezing is for good**, and of the schema as well. -/
theorem schema_afterAll_of_isFrozen (h : registry.isFrozen) (uses : List Use) :
    (registry.afterAll uses).isFrozen ∧ (registry.afterAll uses).schema = registry.schema := by
  induction uses generalizing registry with
  | nil => exact ⟨h, rfl⟩
  | cons use uses ih =>
    obtain ⟨hfrozen, hschema⟩ := ih ((isFrozen_after registry use).mpr (.inl h))
    exact ⟨hfrozen, hschema.trans (schema_after (accepts_of_isFrozen h use))⟩

/-- **Accepted definitions are all that counts.** To replay them, on a registry
of the same schema that no codec has been asked of, gives the schema again. -/
theorem exists_replay {other : Registry} (h : registry.schema = other.schema)
    (hunused : other.isFrozen = false) (uses : List Use) :
    ∃ replayed, other.defineAll (registry.accepted uses) = .ok replayed ∧
      (registry.afterAll uses).schema = replayed.schema := by
  induction uses generalizing registry other with
  | nil => exact ⟨other, rfl, h⟩
  | cons use uses ih =>
    rcases registry.accepts_cases use with hnone | ⟨definition, hone, hdefine⟩
    · rw [accepted, hnone]
      exact ih ((schema_after hnone).trans h) hunused
    · obtain ⟨next, hnext, hschema⟩ := define_of_schema_eq h hunused hdefine
      obtain ⟨replayed, hreplayed, hrest⟩ := ih hschema (isFrozen_define hnext)
      rw [accepted, hone]
      exact ⟨replayed, defineAll_cons_eq_ok_iff.mpr ⟨next, hnext, hreplayed⟩, hrest⟩

end Registry

/-- A registry, and all that was done with it or, before it was cloned, with
the one that it is a clone of. -/
structure Lineage where
  registry : Registry
  history : List Registry.Use

namespace Lineage

/-- What can happen to one of several registries, by its place among them. -/
inductive Step where
  | use (index : Nat) (use : Registry.Use)
  /-- A clone joins the others. It has all that is remembered, and its own way
  to go. -/
  | clone (index : Nat)

/-- The lineage with one more use of its registry. -/
def extend (lineage : Lineage) (use : Registry.Use) : Lineage :=
  ⟨lineage.registry.after use, lineage.history ++ [use]⟩

def step (family : List Lineage) : Step → List Lineage
  | .use index use => family.modify index (·.extend use)
  | .clone index => family ++ family[index]?.toList

/-- The registries that some steps lead to from a single one without events. -/
def family (settings : RegistrySettings) (steps : List Step) : List Lineage :=
  steps.foldl step [⟨.ofSettings settings, []⟩]

/-- The registry is what its history has made of one without events. -/
def Traces (settings : RegistrySettings) (lineage : Lineage) : Prop :=
  lineage.registry = (Registry.ofSettings settings).afterAll lineage.history

theorem traces_extend {settings : RegistrySettings} {lineage : Lineage}
    (h : lineage.Traces settings) (use : Registry.Use) :
    (lineage.extend use).Traces settings := by
  unfold Traces at h ⊢
  simp only [extend, h, Registry.afterAll, List.foldl_append, List.foldl_cons, List.foldl_nil]

theorem traces_step {settings : RegistrySettings} {family : List Lineage}
    (h : ∀ lineage ∈ family, lineage.Traces settings) (next : Step) :
    ∀ lineage ∈ step family next, lineage.Traces settings := by
  intro lineage hmem
  cases next with
  | use index use =>
    obtain ⟨place, hplace⟩ := List.mem_iff_getElem?.mp hmem
    rw [step, List.getElem?_modify] at hplace
    obtain ⟨before, hbefore, rfl⟩ := Option.map_eq_some_iff.mp hplace
    have htraces := h before (List.mem_of_getElem? hbefore)
    split
    · exact traces_extend htraces use
    · exact htraces
  | clone index =>
    rcases List.mem_append.mp hmem with hold | hnew
    · exact h lineage hold
    · exact h lineage (List.mem_of_getElem? (Option.mem_toList.mp hnew))

/-- **Registries are made by their own history**, and by no other's. -/
theorem traces_of_mem_family {settings : RegistrySettings} {steps : List Step} {lineage : Lineage}
    (hmem : lineage ∈ family settings steps) : lineage.Traces settings := by
  have hstart : ∀ lineage ∈ [(⟨.ofSettings settings, []⟩ : Lineage)], lineage.Traces settings := by
    intro lineage hmem
    obtain rfl := List.mem_singleton.mp hmem
    rfl
  unfold family at hmem
  generalize [(⟨.ofSettings settings, []⟩ : Lineage)] = start at hstart hmem
  induction steps generalizing start with
  | nil => exact hstart lineage hmem
  | cons next steps ih => exact ih _ (traces_step hstart next) hmem

/-- What has happened to a registry, and to those that it is a clone of, has
given it the schema that the accepted definitions alone give. -/
theorem exists_replay_of_mem_family {settings : RegistrySettings} {steps : List Step}
    {lineage : Lineage} (hmem : lineage ∈ family settings steps) :
    ∃ replayed, (Registry.ofSettings settings).defineAll
        ((Registry.ofSettings settings).accepted lineage.history) = .ok replayed ∧
      lineage.registry.schema = replayed.schema := by
  have htraces : lineage.registry = _ := traces_of_mem_family hmem
  rw [htraces]
  exact Registry.exists_replay rfl rfl lineage.history

theorem sound {settings : RegistrySettings} {steps : List Step} {lineage : Lineage}
    (hmem : lineage ∈ family settings steps) : lineage.registry.schema.Sound := by
  obtain ⟨replayed, hreplayed, hsame⟩ := exists_replay_of_mem_family hmem
  have hempty : (Registry.ofSettings settings).schema.Sound := Schema.sound_empty settings
  exact hsame ▸ Registry.sound_defineAll hempty hreplayed

end Lineage

end EventWire
