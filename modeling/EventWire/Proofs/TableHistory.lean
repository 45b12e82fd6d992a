/-
EventWire.Proofs.TableHistory — what a history makes of tables.

A registry is not only asked for codecs. Definitions are refused, framers drain buffers
with it, channels send and receive with it, clones of it are taken. Here each of these
uses is one of tables, which are changed in place (`Tables.after`), and tables follow the
registry through all of them. Draining is by induction on what is left of the buffer,
since the tables that hold the registry are others for each record
(`Tables.follows_drain`); a history is by induction on its uses
(`Tables.Holds.afterAll`).

A clone of tables is a copy of them. It has the history of those that it is copied from,
so tables side by side are told from their lineages, each by itself
(`Lineage.map_tables_family`), and the tables of a lineage hold its registry
(`Lineage.holds_tables`).
-/
import EventWire.Proofs.Accounting
import EventWire.Proofs.TableCodecs

namespace EventWire

namespace Tables

variable {σ α : Type}

/-! ## Draining in place -/

/-- What lies at the front of `data`, which starts at `offset` in the stream. -/
def nextFrame (offset : Nat) (data : Bytes) : StateM Tables Frame := do
  match Header.read? data with
  | none => return .incomplete
  | some header =>
    match ← codecOfHeader? header with
    | none => return .unreadable (.unknownPacket header.id offset)
    | some codec => return codec.nextFrame data

theorem follows_nextFrame (offset : Nat) (data : Bytes) :
    Follows (nextFrame offset data) (·.nextFrame offset data) := by
  intro tables registry h
  dsimp only
  unfold nextFrame Registry.nextFrame
  cases Header.read? data with
  | none => exact ⟨rfl, h⟩
  | some header =>
    dsimp only
    rcases hfound : registry.codecOfHeader? header with ⟨found, after⟩
    obtain ⟨next, hnext, hholds⟩ := (follows_codecOfHeader? header).exists_eq h hfound
    rw [bind_apply, hnext]
    cases found with
    | none => exact ⟨rfl, hholds⟩
    | some codec => exact ⟨rfl, hholds⟩

theorem nextFrame_whole {tables after : Tables} {offset size : Nat} {data : Bytes}
    {event : String} {body : Except CodecError Record}
    (h : nextFrame offset data tables = (.whole event size body, after)) :
    0 < size ∧ size ≤ data.length := by
  unfold nextFrame at h
  cases hread : Header.read? data with
  | none =>
    rw [hread] at h
    exact nomatch h
  | some header =>
    rw [hread] at h
    dsimp only at h
    rw [bind_apply] at h
    rcases hfound : codecOfHeader? header tables with ⟨_ | codec, next⟩
    · rw [hfound] at h
      exact nomatch h
    · rw [hfound] at h
      have hframe : codec.nextFrame data = .whole event size body := congrArg Prod.fst h
      obtain ⟨-, hextent, hreach, -⟩ := Codec.nextFrame_eq_whole hframe
      exact ⟨Codec.pos_of_extent_known hextent, hreach⟩

/-- What is left after a buffer has been drained, besides tables. -/
structure Drained (σ : Type) where
  consumed : Nat
  error : Option CodecError
  offset : Nat
  rest : Bytes
  state : σ

def Drained.of (drained : EventWire.Drained σ) : Drained σ :=
  ⟨drained.consumed, drained.error, drained.offset, drained.rest, drained.state⟩

/-- Takes whole records off the front of `data`. -/
def drain (consumer : Consumer σ) (offset : Nat) (data : Bytes) (consumed : Nat) (state : σ) :
    StateM Tables (Drained σ) := fun tables =>
  match _h : nextFrame offset data tables with
  | (.incomplete, after) => (⟨consumed, none, offset, data, state⟩, after)
  | (.unreadable error, after) => (⟨consumed, some error, offset, data, state⟩, after)
  | (.whole _ size (.error error), after) =>
    drain consumer (offset + size) (data.drop size) consumed (consumer.reject error state) after
  | (.whole event size (.ok record), after) =>
    match consumer.consume event record state with
    | (.ok (), state) =>
      drain consumer (offset + size) (data.drop size) (consumed + 1) state after
    | (.error error, state) =>
      (⟨consumed, some error, offset + size, data.drop size, state⟩, after)
termination_by data.length
decreasing_by
  all_goals
    have := nextFrame_whole _h
    simp only [List.length_drop]
    omega

theorem drain_eq (consumer : Consumer σ) (offset : Nat) (data : Bytes) (consumed : Nat)
    (state : σ) (tables : Tables) :
    drain consumer offset data consumed state tables =
      match nextFrame offset data tables with
      | (.incomplete, after) => (⟨consumed, none, offset, data, state⟩, after)
      | (.unreadable error, after) => (⟨consumed, some error, offset, data, state⟩, after)
      | (.whole _ size (.error error), after) =>
        drain consumer (offset + size) (data.drop size) consumed (consumer.reject error state) after
      | (.whole event size (.ok record), after) =>
        match consumer.consume event record state with
        | (.ok (), state) =>
          drain consumer (offset + size) (data.drop size) (consumed + 1) state after
        | (.error error, state) =>
          (⟨consumed, some error, offset + size, data.drop size, state⟩, after) := by
  rw [drain]
  rcases nextFrame offset data tables with
    ⟨_ | error | ⟨event, size, error | record⟩, after⟩ <;> rfl

/-- **A buffer is drained in place** as it is drained with the registry. -/
theorem follows_drain (consumer : Consumer σ) (offset : Nat) (data : Bytes) (consumed : Nat)
    (state : σ) :
    Follows (drain consumer offset data consumed state) fun registry =>
      let drained := EventWire.drain consumer registry offset data consumed state
      (.of drained, drained.registry) := by
  intro tables registry h
  dsimp only
  fun_induction EventWire.drain consumer registry offset data consumed state
      generalizing tables with
  | case1 registry offset data consumed state after hframe =>
    obtain ⟨next, hnext, hholds⟩ := (follows_nextFrame offset data).exists_eq h hframe
    rw [drain_eq, hnext]
    exact ⟨rfl, hholds⟩
  | case2 registry offset data consumed state error after hframe =>
    obtain ⟨next, hnext, hholds⟩ := (follows_nextFrame offset data).exists_eq h hframe
    rw [drain_eq, hnext]
    exact ⟨rfl, hholds⟩
  | case3 registry offset data consumed state event size error after hframe ih =>
    obtain ⟨next, hnext, hholds⟩ := (follows_nextFrame offset data).exists_eq h hframe
    rw [drain_eq, hnext]
    exact ih hholds
  | case4 registry offset data consumed state event size record after hframe taken hconsume ih =>
    obtain ⟨next, hnext, hholds⟩ := (follows_nextFrame offset data).exists_eq h hframe
    rw [drain_eq, hnext]
    dsimp only
    rw [hconsume]
    exact ih hholds
  | case5 registry offset data consumed state event size record after hframe error left hconsume =>
    obtain ⟨next, hnext, hholds⟩ := (follows_nextFrame offset data).exists_eq h hframe
    rw [drain_eq, hnext]
    dsimp only
    rw [hconsume]
    exact ⟨rfl, hholds⟩

/-! ## Framers and channels -/

/-- One more chunk. -/
def feed (framer : Framer) (consumer : Consumer σ) (chunk : Bytes) (state : σ) :
    StateM Tables (Except CodecError Nat × Framer × σ) := do
  match framer.halted with
  | some cause => return (.error (.framingHalted cause.message), framer, state)
  | none =>
    let drained ← drain consumer framer.offset (framer.pending ++ chunk) 0 state
    let moved := { framer with pending := drained.rest, offset := drained.offset }
    match drained.error with
    | some error =>
      return (.error error, if error.isFatal then moved.halt error else moved, drained.state)
    | none =>
      match moved.overflow? with
      | some error => return (.error error, moved.halt error, drained.state)
      | none => return (.ok drained.consumed, moved, drained.state)

theorem follows_feed (framer : Framer) (consumer : Consumer σ) (chunk : Bytes) (state : σ) :
    Follows (feed framer consumer chunk state) fun registry =>
      let fed := framer.feed consumer registry chunk state
      ((fed.result, fed.framer, fed.state), fed.registry) := by
  intro tables registry h
  dsimp only
  unfold feed Framer.feed
  cases framer.halted with
  | some cause => exact ⟨rfl, h⟩
  | none =>
    dsimp only
    obtain ⟨next, hnext, hholds⟩ :=
      (follows_drain consumer framer.offset (framer.pending ++ chunk) 0 state).exists_eq h rfl
    rw [bind_apply, hnext]
    generalize EventWire.drain consumer registry framer.offset (framer.pending ++ chunk) 0 state =
      drained at hholds
    obtain ⟨consumed, error, offset, rest, after, state⟩ := drained
    dsimp only [Drained.of] at hholds ⊢
    cases error with
    | some error => exact ⟨rfl, hholds⟩
    | none =>
      dsimp only
      cases Framer.overflow? ⟨framer.settings, rest, none, offset⟩ with
      | some error => exact ⟨rfl, hholds⟩
      | none => exact ⟨rfl, hholds⟩

/-- Writes a record of the named event to a sink. -/
def send (sink : Sink α) (outbox : α) (event : String) (record : Record) :
    StateM Tables (Except CodecError Unit × α) := do
  match ← encode event record with
  | .error error => return (.error error, outbox)
  | .ok bytes => return sink.write bytes outbox

theorem follows_send {β : Type} (channel : Channel α β) (event : String) (record : Record) :
    Follows (send channel.sink channel.outbox event record) fun registry =>
      let sent := { channel with registry }.send event record
      ((sent.1, sent.2.outbox), sent.2.registry) := by
  intro tables registry h
  dsimp only
  unfold send Channel.send
  dsimp only
  rcases hencode : registry.encode event record with ⟨encoded, after⟩
  obtain ⟨next, hnext, hholds⟩ := (follows_encode event record).exists_eq h hencode
  rw [bind_apply, hnext]
  cases encoded with
  | error error => exact ⟨rfl, hholds⟩
  | ok bytes => exact ⟨rfl, hholds⟩

/-! ## Histories -/

/-- An operation, whatever the answer. -/
def perform : Registry.Operation → StateM Tables Unit
  | .define id name fields => discard (define id name fields).run
  | .codecOfId id => discard (codecOfId? id)
  | .codecOfName name => discard (codecOfName? name)
  | .codecOfHeader header => discard (codecOfHeader? header)
  | .compileAll => discard compileAll
  | .fingerprint => discard fingerprint
  | .encode name record => discard (encode name record)
  | .decodeFirst data => discard (decodeFirst data)
  | .decode data => discard (decode data)
  | .reconstruct name record => discard (reconstruct name record)

/-- The tables after a use. -/
def after (tables : Tables) : Registry.Use → Tables
  | .perform operation => (perform operation tables).2
  | .lookUp => tables
  | .feed framer consumer chunk state => (feed framer consumer chunk state tables).2
  | .send channel event record => (send channel.sink channel.outbox event record tables).2
  | .receive channel chunk =>
    (feed channel.framer (channel.handlers.route channel.consumer) chunk channel.inbox tables).2

/-- The tables after some uses, one after the other. -/
def afterAll (tables : Tables) (uses : List Registry.Use) : Tables := uses.foldl after tables

variable {tables : Tables} {registry : Registry}

/-- A definition in place answers as the definition does. -/
theorem follows_define (id : UInt32) (name : String) (fields : List Field) :
    Follows (define id name fields).run fun registry =>
      let defined := registry.define id name fields
      (defined.map fun _ => (), defined.toOption.getD registry) := by
  intro tables registry h
  obtain ⟨hrefused, haccepted⟩ := h.define id name fields
  dsimp only
  cases hdefine : registry.define id name fields with
  | error error =>
    rw [hrefused error hdefine]
    exact ⟨rfl, h⟩
  | ok next =>
    obtain ⟨after, hrun, hafter⟩ := haccepted next hdefine
    rw [hrun]
    exact ⟨rfl, hafter⟩

theorem Holds.perform (h : tables.Holds registry) (operation : Registry.Operation) :
    (perform operation tables).2.Holds (registry.perform operation) := by
  cases operation with
  | define id name fields => exact (follows_define id name fields h).2
  | codecOfId id => exact (follows_codecOfId? id h).2
  | codecOfName name => exact (follows_codecOfName? name h).2
  | codecOfHeader header => exact (follows_codecOfHeader? header h).2
  | compileAll => exact (follows_compileAll h).2
  | fingerprint => exact (follows_fingerprint h).2
  | encode name record => exact (follows_encode name record h).2
  | decodeFirst data => exact (follows_decodeFirst data h).2
  | decode data => exact (follows_decode data h).2
  | reconstruct name record => exact (follows_reconstruct name record h).2

theorem Holds.after (h : tables.Holds registry) (use : Registry.Use) :
    (tables.after use).Holds (registry.after use) := by
  cases use with
  | perform operation => exact h.perform operation
  | lookUp => exact h
  | feed framer consumer chunk state => exact (follows_feed framer consumer chunk state h).2
  | send channel event record => exact (follows_send channel event record h).2
  | receive channel chunk => exact (follows_feed _ _ chunk channel.inbox h).2

/-- **Whatever is done to both**, tables hold the registry. -/
theorem Holds.afterAll (h : tables.Holds registry) (uses : List Registry.Use) :
    (tables.afterAll uses).Holds (registry.afterAll uses) := by
  induction uses generalizing tables registry with
  | nil => exact h
  | cons use uses ih => exact ih (h.after use)

/-! ## Tables side by side -/

/-- What can happen to one of several tables. A clone is a copy. -/
def step (family : List Tables) : Lineage.Step → List Tables
  | .use index use => family.modify index (·.after use)
  | .clone index => family ++ family[index]?.toList

/-- The tables that some steps lead to from empty ones. -/
def family (settings : RegistrySettings) (steps : List Lineage.Step) : List Tables :=
  steps.foldl step [ofSettings settings]

end Tables

/-- There are tables that hold the registry. -/
def Registry.Kept (registry : Registry) : Prop := ∃ tables : Tables, tables.Holds registry

namespace Lineage

variable {settings : RegistrySettings} {steps : List Step} {lineage : Lineage}

/-- The tables that the history makes of empty ones. -/
def tables (lineage : Lineage) (settings : RegistrySettings) : Tables :=
  (Tables.ofSettings settings).afterAll lineage.history

theorem tables_extend (lineage : Lineage) (use : Registry.Use) :
    (lineage.extend use).tables settings = (lineage.tables settings).after use := by
  simp [tables, extend, Tables.afterAll]

theorem map_tables_step (family : List Lineage) (next : Step) :
    (step family next).map (·.tables settings) =
      Tables.step (family.map (·.tables settings)) next := by
  cases next with
  | use index use =>
    refine List.ext_getElem? fun place => ?_
    simp only [step, Tables.step, List.getElem?_map, List.getElem?_modify, Option.map_eq_map,
      Option.map_map]
    congr 1
    funext before
    dsimp only [Function.comp_apply]
    split
    · exact tables_extend before use
    · rfl
  | clone index =>
    simp only [step, Tables.step, List.map_append, List.getElem?_map, Option.toList_map]

/-- **Tables side by side** are those of the lineages: what is done to one of them is done
to no other. -/
theorem map_tables_family (settings : RegistrySettings) (steps : List Step) :
    (family settings steps).map (·.tables settings) = Tables.family settings steps := by
  unfold family Tables.family
  have hstart : [(⟨.ofSettings settings, []⟩ : Lineage)].map (·.tables settings) =
      [Tables.ofSettings settings] := rfl
  rw [← hstart]
  generalize [(⟨.ofSettings settings, []⟩ : Lineage)] = start
  induction steps generalizing start with
  | nil => rfl
  | cons next steps ih =>
    rw [List.foldl_cons, List.foldl_cons, ← map_tables_step]
    exact ih _

/-- **The tables of a history** hold the registry that it has made. -/
theorem holds_tables (hmem : lineage ∈ family settings steps) :
    (lineage.tables settings).Holds lineage.registry := by
  have htraces : lineage.registry = _ := traces_of_mem_family hmem
  rw [htraces]
  exact (Tables.holds_ofSettings settings).afterAll lineage.history

theorem kept (hmem : lineage ∈ family settings steps) : lineage.registry.Kept :=
  ⟨lineage.tables settings, holds_tables hmem⟩

end Lineage

end EventWire
