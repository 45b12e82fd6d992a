/-
EventWire.Proofs.Framing — the framer reads the stream, not the chunks.

A framer that has been fed some chunks stands where one scan of all their
bytes stands (`Framer.InStep`): it has halted if the scan has stopped for
good, else it holds what the scan has left, and its consumer has been told
what the scan says. One chunk keeps it in step (`InStep.feed`), for any
bytes, because a scan can be taken up again anywhere (`Schema.scan_append`);
so do any number of chunks (`InStep.feedAll`).

* `Consumer.NeverFails` — consumers that take every record. One that
  refuses a record ends the draining there, and then what is pending
  depends on the chunk.
* `Framer.feedAll` — a run over some chunks.
* `Framer.callsOf` — the calls made to the consumer in a run. They are read
  off a consumer that keeps them (`Consumer.logged`), which changes nothing
  else (`Framer.feedAll_logged`).

Two ways of cutting one stream therefore cannot be told apart
(`Framer.feedAll_chunking`), however hostile the stream is.
-/
import EventWire.Proofs.Scan
import Mathlib

namespace EventWire

variable {σ : Type}

/-! ## Consumers and calls -/

namespace Consumer

/-- Every record is taken. -/
def NeverFails (consumer : Consumer σ) : Prop :=
  ∀ event record state, (consumer.consume event record state).1 = .ok ()

/-- The consumer's state after a call. -/
def tell (consumer : Consumer σ) (state : σ) : Call → σ
  | .consume event record => (consumer.consume event record state).2
  | .reject error => consumer.reject error state

/-- The consumer's state after some calls, one after the other. -/
def tellAll (consumer : Consumer σ) (state : σ) (calls : List Call) : σ :=
  calls.foldl consumer.tell state

/-- The same consumer, which keeps the calls made to it. -/
def logged (consumer : Consumer σ) : Consumer (List Call × σ) where
  consume event record state :=
    ((consumer.consume event record state.2).1,
      state.1 ++ [.consume event record], (consumer.consume event record state.2).2)
  reject error state := (state.1 ++ [.reject error], consumer.reject error state.2)

variable {consumer : Consumer σ}

theorem NeverFails.logged (h : consumer.NeverFails) : consumer.logged.NeverFails :=
  fun event record state => h event record state.2

theorem tell_logged (log : List Call) (state : σ) (call : Call) :
    consumer.logged.tell (log, state) call = (log ++ [call], consumer.tell state call) := by
  cases call <;> rfl

theorem tellAll_append (state : σ) (calls calls' : List Call) :
    consumer.tellAll state (calls ++ calls') =
      consumer.tellAll (consumer.tellAll state calls) calls' :=
  List.foldl_append

/-- The log of a consumer is the list of calls. -/
theorem tellAll_logged (log : List Call) (state : σ) (calls : List Call) :
    consumer.logged.tellAll (log, state) calls = (log ++ calls, consumer.tellAll state calls) := by
  induction calls generalizing log state with
  | nil => simp [tellAll]
  | cons call calls ih =>
    show consumer.logged.tellAll (consumer.logged.tell (log, state) call) calls = _
    rw [tell_logged, ih, List.append_assoc]
    rfl

end Consumer

/-! ## Draining, frame by frame -/

section Frames

variable {consumer : Consumer σ} {registry after : Registry} {offset : Nat} {data : Bytes}
  {consumed : Nat} {state next : σ} {event : String} {size : Nat}

theorem drain_incomplete (h : registry.nextFrame offset data = (.incomplete, after)) :
    drain consumer registry offset data consumed state =
      ⟨consumed, none, offset, data, after, state⟩ := by
  rw [drain]
  split <;> simp_all

theorem drain_unreadable {error : CodecError}
    (h : registry.nextFrame offset data = (.unreadable error, after)) :
    drain consumer registry offset data consumed state =
      ⟨consumed, some error, offset, data, after, state⟩ := by
  rw [drain]
  split <;> simp_all

theorem drain_rejected {error : CodecError}
    (h : registry.nextFrame offset data = (.whole event size (.error error), after)) :
    drain consumer registry offset data consumed state =
      drain consumer after (offset + size) (data.drop size) consumed
        (consumer.reject error state) := by
  rw [drain]
  split <;> simp_all

theorem drain_consumed {record : Record}
    (h : registry.nextFrame offset data = (.whole event size (.ok record), after))
    (hconsume : consumer.consume event record state = (.ok (), next)) :
    drain consumer registry offset data consumed state =
      drain consumer after (offset + size) (data.drop size) (consumed + 1) next := by
  rw [drain]
  split <;> simp_all

theorem drain_refused {record : Record} {error : CodecError}
    (h : registry.nextFrame offset data = (.whole event size (.ok record), after))
    (hconsume : consumer.consume event record state = (.error error, next)) :
    drain consumer registry offset data consumed state =
      ⟨consumed, some error, offset + size, data.drop size, after, next⟩ := by
  rw [drain]
  split <;> simp_all

end Frames

/-! ## Draining is scanning -/

/-- What a chunk is answered with after it has been drained. -/
def Drained.answer (drained : Drained σ) : Except CodecError Nat :=
  match drained.error with
  | some error => .error error
  | none => .ok drained.consumed

/-- What is left after draining is what a scan has found. -/
structure Drained.Follows (drained : Drained σ) (scan : Scan) (consumer : Consumer σ)
    (schema : Schema) (consumed : Nat) (state : σ) : Prop where
  consumed : drained.consumed = consumed + scan.delivered
  error : drained.error = scan.error
  offset : drained.offset = scan.offset
  rest : drained.rest = scan.rest
  sameSchema : drained.registry.schema = schema
  state : drained.state = consumer.tellAll state scan.calls

/-- What follows a scan after a call follows the scan that makes the call
first. -/
theorem Drained.Follows.after {drained : Drained σ} {scan : Scan} {consumer : Consumer σ}
    {schema : Schema} {consumed : Nat} {state : σ} {call : Call}
    (h : drained.Follows scan consumer schema (consumed + [call].countP Call.isConsume)
      (consumer.tell state call)) :
    drained.Follows (scan.after [call]) consumer schema consumed state where
  consumed := by rw [h.consumed, Scan.delivered_after, Nat.add_assoc]
  error := h.error
  offset := h.offset
  rest := h.rest
  sameSchema := h.sameSchema
  state := h.state

/-- **A buffer is drained as it is scanned**, if the consumer takes all. -/
theorem drain_follows {consumer : Consumer σ} (h : consumer.NeverFails) (registry : Registry)
    (offset : Nat) (data : Bytes) (consumed : Nat) (state : σ) :
    (drain consumer registry offset data consumed state).Follows
      (registry.schema.scan offset data) consumer registry.schema consumed state := by
  fun_induction drain consumer registry offset data consumed state with
  | case1 registry offset data consumed state after hdrain =>
    obtain ⟨hframe, hschema⟩ := Registry.nextFrame_eq hdrain
    rw [Schema.scan_incomplete hframe]
    exact ⟨rfl, rfl, rfl, rfl, hschema, rfl⟩
  | case2 registry offset data consumed state error after hdrain =>
    obtain ⟨hframe, hschema⟩ := Registry.nextFrame_eq hdrain
    rw [Schema.scan_unreadable hframe]
    exact ⟨rfl, rfl, rfl, rfl, hschema, rfl⟩
  | case3 registry offset data consumed state event size error after hdrain ih =>
    obtain ⟨hframe, hschema⟩ := Registry.nextFrame_eq hdrain
    rw [hschema] at ih
    rw [Schema.scan_whole hframe]
    exact Drained.Follows.after ih
  | case4 registry offset data consumed state event size record after hdrain next hconsume ih =>
    obtain ⟨hframe, hschema⟩ := Registry.nextFrame_eq hdrain
    rw [hschema] at ih
    rw [Schema.scan_whole hframe]
    refine Drained.Follows.after ?_
    rw [show consumer.tell state (.ofBody event (.ok record)) = next from
      congrArg Prod.snd hconsume]
    exact ih
  | case5 registry offset data consumed state event size record after hdrain error next hconsume =>
    have hnever := h event record state
    rw [hconsume] at hnever
    exact nomatch hnever

/-! ## One chunk -/

namespace Framer

/-- The framer stands where a scan of the stream so far stands, and so do the
registry and the consumer that it works with. -/
structure InStep (framer : Framer) (registry : Registry) (state : σ) (consumer : Consumer σ)
    (schema : Schema) (start : σ) (stream : Bytes) : Prop where
  unlimited : framer.settings.maxPending = none
  halted : framer.halted = (schema.scan 0 stream).error
  /-- What is pending matters as long as the framer reads on. -/
  pending : framer.halted = none →
    framer.pending = (schema.scan 0 stream).rest ∧ framer.offset = (schema.scan 0 stream).offset
  sameSchema : registry.schema = schema
  told : state = consumer.tellAll start (schema.scan 0 stream).calls

variable {framer : Framer} {registry : Registry} {state : σ} {consumer : Consumer σ}
  {schema : Schema} {start : σ} {stream : Bytes}

/-- A fresh framer is in step with the empty stream. -/
theorem inStep_fresh (registry : Registry) (consumer : Consumer σ) (start : σ) :
    InStep {} registry start consumer registry.schema start [] := by
  have hframe : registry.schema.nextFrame 0 [] = .incomplete := rfl
  have hscan := Schema.scan_incomplete hframe
  constructor <;> simp [hscan, Consumer.tellAll]

/-- A halted framer stays as it is. -/
theorem feed_of_halted {cause : CodecError} (h : framer.halted = some cause)
    (consumer : Consumer σ) (registry : Registry) (chunk : Bytes) (state : σ) :
    framer.feed consumer registry chunk state =
      ⟨.error (.framingHalted cause.message), framer, registry, state⟩ := by
  unfold feed
  rw [h]

/-- Without a limit on what is pending, a chunk is drained after it, and the
scan goes on from its rest. The framer halts on every error of the draining,
as all that a scan can stop at are fatal. -/
theorem InStep.feed_eq (h : InStep framer registry state consumer schema start stream)
    (hnever : consumer.NeverFails) (hreading : framer.halted = none) (chunk : Bytes) :
    ∃ (drained : Drained σ) (next : Scan),
      schema.scan 0 (stream ++ chunk) = next.after (schema.scan 0 stream).calls ∧
      drained.Follows next consumer schema 0 state ∧
      framer.feed consumer registry chunk state =
        ⟨drained.answer,
          { framer with
            pending := drained.rest, halted := drained.error, offset := drained.offset },
          drained.registry, drained.state⟩ := by
  obtain ⟨hpending, hoffset⟩ := h.pending hreading
  have hfollows := drain_follows hnever registry framer.offset (framer.pending ++ chunk) 0 state
  rw [h.sameSchema] at hfollows
  refine ⟨_, _, ?_, hfollows, ?_⟩
  · rw [Schema.scan_append_of_none (h.halted ▸ hreading), hpending, hoffset]
  · unfold Framer.feed Drained.answer
    rw [hreading]
    dsimp only
    cases herror :
        (drain consumer registry framer.offset (framer.pending ++ chunk) 0 state).error with
    | none => simp [overflow?, h.unlimited]
    | some error =>
      have hfatal : error.isFatal := Schema.isFatal_of_scan (hfollows.error ▸ herror)
      simp [hfatal, halt]

/-- **A chunk keeps the framer in step.** -/
theorem InStep.feed (h : InStep framer registry state consumer schema start stream)
    (hnever : consumer.NeverFails) (chunk : Bytes) :
    InStep (framer.feed consumer registry chunk state).framer
      (framer.feed consumer registry chunk state).registry
      (framer.feed consumer registry chunk state).state consumer schema start
      (stream ++ chunk) := by
  cases hhalted : framer.halted with
  | some cause =>
    rw [feed_of_halted hhalted]
    have hscan := Schema.scan_append_of_error (h.halted ▸ hhalted) chunk
    refine ⟨h.unlimited, ?_, ?_, h.sameSchema, ?_⟩
    · rw [hscan]
      exact h.halted
    · intro hreading
      rw [hhalted] at hreading
      exact nomatch hreading
    · rw [hscan]
      exact h.told
  | none =>
    obtain ⟨drained, next, hscan, hdrain, hfeed⟩ := h.feed_eq hnever hhalted chunk
    rw [hfeed]
    refine ⟨h.unlimited, ?_, ?_, hdrain.sameSchema, ?_⟩
    · rw [hscan]
      exact hdrain.error
    · intro _
      rw [hscan]
      exact ⟨hdrain.rest, hdrain.offset⟩
    · rw [hscan, hdrain.state, h.told]
      exact (Consumer.tellAll_append ..).symm

/-- As long as the stream can be read, a chunk is answered with the number of
records that the scan goes on to deliver. -/
theorem InStep.feed_ok (h : InStep framer registry state consumer schema start stream)
    (hnever : consumer.NeverFails) {chunk : Bytes}
    (hreadable : (schema.scan 0 (stream ++ chunk)).error = none) :
    ∃ count, (framer.feed consumer registry chunk state).result = .ok count ∧
      (schema.scan 0 stream).delivered + count = (schema.scan 0 (stream ++ chunk)).delivered := by
  cases hhalted : framer.halted with
  | some cause =>
    rw [Schema.scan_append_of_error (h.halted ▸ hhalted), ← h.halted, hhalted] at hreadable
    exact nomatch hreadable
  | none =>
    obtain ⟨drained, next, hscan, hdrain, hfeed⟩ := h.feed_eq hnever hhalted chunk
    rw [hscan] at hreadable ⊢
    have hnone : drained.error = none := hdrain.error.trans hreadable
    refine ⟨drained.consumed, ?_, ?_⟩
    · rw [hfeed, Drained.answer, hnone]
    · rw [hdrain.consumed, Nat.zero_add, Scan.delivered_after]
      rfl

/-- The chunk after which the stream cannot be read any further is answered
with the reason. -/
theorem InStep.feed_error (h : InStep framer registry state consumer schema start stream)
    (hnever : consumer.NeverFails) (hreading : framer.halted = none) {chunk : Bytes}
    {error : CodecError} (herror : (schema.scan 0 (stream ++ chunk)).error = some error) :
    (framer.feed consumer registry chunk state).result = .error error := by
  obtain ⟨drained, next, hscan, hdrain, hfeed⟩ := h.feed_eq hnever hreading chunk
  rw [hscan] at herror
  have hsome : drained.error = some error := hdrain.error.trans herror
  rw [hfeed, Drained.answer, hsome]

end Framer

/-! ## Any number of chunks -/

/-- What some chunks have led to, one after the other. -/
structure Run (σ : Type) where
  results : List (Except CodecError Nat)
  framer : Framer
  registry : Registry
  state : σ

namespace Run

/-- The first error that a chunk was answered with. -/
def firstError? (run : Run σ) : Option CodecError :=
  run.results.findSome? fun
    | .ok _ => none
    | .error error => some error

/-- The sum of the numbers that chunks were answered with. -/
def total (run : Run σ) : Nat := (run.results.filterMap Except.toOption).sum

theorem total_of_counts {run : Run σ} {counts : List Nat} (h : run.results = counts.map .ok) :
    run.total = counts.sum := by
  rw [total, h, List.filterMap_map]
  exact congrArg List.sum List.filterMap_some

/-- What is answered in a run, and what is left, is in a scan of its stream. -/
structure Reports (run : Run σ) (scan : Scan) : Prop where
  halted : run.framer.halted = scan.error
  firstError : run.firstError? = scan.error
  pending : scan.error = none → run.framer.pending = scan.rest
  counts : scan.error = none → ∃ counts : List Nat,
    run.results = counts.map .ok ∧ counts.sum = scan.delivered

end Run

namespace Framer

/-- Some chunks, one after the other. -/
def feedAll (framer : Framer) (consumer : Consumer σ) (registry : Registry) :
    List Bytes → σ → Run σ
  | [], state => ⟨[], framer, registry, state⟩
  | chunk :: chunks, state =>
    let fed := framer.feed consumer registry chunk state
    let run := fed.framer.feedAll consumer fed.registry chunks fed.state
    { run with results := fed.result :: run.results }

/-- The calls made to the consumer in a run. To keep them does not change the
run (`feedAll_logged`). -/
def callsOf (framer : Framer) (consumer : Consumer σ) (registry : Registry)
    (chunks : List Bytes) (state : σ) : List Call :=
  (framer.feedAll consumer.logged registry chunks ([], state)).state.1

end Framer

/-! ## Keeping a log changes nothing else -/

variable {τ : Type}

/-- A map from the states of one consumer to those of another that does the
same. -/
structure Consumer.Hom (f : σ → τ) (consumer : Consumer σ) (image : Consumer τ) : Prop where
  consume : ∀ event record state, image.consume event record (f state) =
    ((consumer.consume event record state).1, f (consumer.consume event record state).2)
  reject : ∀ error state, image.reject error (f state) = f (consumer.reject error state)

theorem Consumer.hom_logged (consumer : Consumer σ) :
    Consumer.Hom Prod.snd consumer.logged consumer :=
  ⟨fun _ _ _ => rfl, fun _ _ => rfl⟩

def Drained.map (f : σ → τ) (drained : Drained σ) : Drained τ :=
  { drained with state := f drained.state }

def Fed.map (f : σ → τ) (fed : Fed σ) : Fed τ := { fed with state := f fed.state }

def Run.map (f : σ → τ) (run : Run σ) : Run τ := { run with state := f run.state }

variable {f : σ → τ} {consumer : Consumer σ} {image : Consumer τ}

theorem drain_map (h : Consumer.Hom f consumer image) (registry : Registry) (offset : Nat)
    (data : Bytes) (consumed : Nat) (state : σ) :
    drain image registry offset data consumed (f state) =
      (drain consumer registry offset data consumed state).map f := by
  fun_induction drain consumer registry offset data consumed state with
  | case1 registry offset data consumed state after hframe => exact drain_incomplete hframe
  | case2 registry offset data consumed state error after hframe => exact drain_unreadable hframe
  | case3 registry offset data consumed state event size error after hframe ih =>
    rw [drain_rejected hframe, h.reject]
    exact ih
  | case4 registry offset data consumed state event size record after hframe next hconsume ih =>
    have himage := h.consume event record state
    rw [hconsume] at himage
    rw [drain_consumed hframe himage]
    exact ih
  | case5 registry offset data consumed state event size record after hframe error next hconsume =>
    have himage := h.consume event record state
    rw [hconsume] at himage
    exact drain_refused hframe himage

namespace Framer

theorem feed_map (h : Consumer.Hom f consumer image) (framer : Framer) (registry : Registry)
    (chunk : Bytes) (state : σ) :
    framer.feed image registry chunk (f state) =
      (framer.feed consumer registry chunk state).map f := by
  unfold feed
  cases framer.halted with
  | some cause => rfl
  | none =>
    rw [drain_map h]
    generalize drain consumer registry framer.offset (framer.pending ++ chunk) 0 state = drained
    obtain ⟨consumed, error, offset, rest, after, next⟩ := drained
    cases error with
    | some error => rfl
    | none =>
      simp only [Drained.map]
      generalize ({ settings := framer.settings, pending := rest, offset } : Framer) = moved
      cases moved.overflow? with
      | some error => rfl
      | none => rfl

theorem feedAll_map (h : Consumer.Hom f consumer image) (framer : Framer) (registry : Registry)
    (chunks : List Bytes) (state : σ) :
    framer.feedAll image registry chunks (f state) =
      (framer.feedAll consumer registry chunks state).map f := by
  induction chunks generalizing framer registry state with
  | nil => rfl
  | cons chunk chunks ih =>
    have hfeed := feed_map h framer registry chunk state
    have hrest := ih (framer.feed consumer registry chunk state).framer
      (framer.feed consumer registry chunk state).registry
      (framer.feed consumer registry chunk state).state
    simp only [feedAll, hfeed, Fed.map, hrest]
    rfl

/-- The run of a consumer that keeps a log is the run of the consumer. -/
theorem feedAll_logged (framer : Framer) (consumer : Consumer σ) (registry : Registry)
    (chunks : List Bytes) (log : List Call) (state : σ) :
    framer.feedAll consumer registry chunks state =
      (framer.feedAll consumer.logged registry chunks (log, state)).map Prod.snd :=
  feedAll_map consumer.hom_logged framer registry chunks (log, state)

end Framer

/-! ## Consumers that cannot be told apart -/

/-- In states that are `Alike` two consumers answer alike, and are in such
states again afterwards. -/
structure Consumer.Simulates (Alike : σ → τ → Prop) (consumer : Consumer σ)
    (other : Consumer τ) : Prop where
  consume : ∀ event record {state : σ} {state' : τ}, Alike state state' →
    (consumer.consume event record state).1 = (other.consume event record state').1 ∧
      Alike (consumer.consume event record state).2 (other.consume event record state').2
  reject : ∀ error {state : σ} {state' : τ}, Alike state state' →
    Alike (consumer.reject error state) (other.reject error state')

/-- The same is left of two buffers, but for the states of the consumers and
what the registries remember. -/
structure Drained.Matches (Alike : σ → τ → Prop) (drained : Drained σ)
    (other : Drained τ) : Prop where
  consumed : drained.consumed = other.consumed
  error : drained.error = other.error
  offset : drained.offset = other.offset
  rest : drained.rest = other.rest
  sameSchema : drained.registry.schema = other.registry.schema
  state : Alike drained.state other.state

/-- A chunk has led to the same, but for the states of the consumers and what
the registries remember. -/
structure Fed.Matches (Alike : σ → τ → Prop) (fed : Fed σ) (other : Fed τ) : Prop where
  result : fed.result = other.result
  framer : fed.framer = other.framer
  sameSchema : fed.registry.schema = other.registry.schema
  state : Alike fed.state other.state

theorem Registry.nextFrame_of_schema_eq {registry registry' after : Registry} {offset : Nat}
    {data : Bytes} {frame : Frame} (hsame : registry.schema = registry'.schema)
    (h : registry.nextFrame offset data = (frame, after)) :
    ∃ after', registry'.nextFrame offset data = (frame, after') ∧
      after.schema = after'.schema := by
  rcases hother : registry'.nextFrame offset data with ⟨frame', after'⟩
  obtain ⟨hframe, hschema⟩ := nextFrame_eq h
  obtain ⟨hframe', hschema'⟩ := nextFrame_eq hother
  rw [hsame] at hframe
  exact ⟨after', by rw [← hframe, hframe'], hschema.trans (hsame.trans hschema'.symm)⟩

theorem drain_matches {Alike : σ → τ → Prop} {other : Consumer τ}
    (h : consumer.Simulates Alike other) {registry registry' : Registry}
    (hsame : registry.schema = registry'.schema) (offset : Nat) (data : Bytes) (consumed : Nat)
    {state : σ} {state' : τ} (hstate : Alike state state') :
    (drain consumer registry offset data consumed state).Matches Alike
      (drain other registry' offset data consumed state') := by
  fun_induction drain consumer registry offset data consumed state
    generalizing registry' state' with
  | case1 registry offset data consumed state after hframe =>
    obtain ⟨after', hframe', hafter⟩ := Registry.nextFrame_of_schema_eq hsame hframe
    rw [drain_incomplete hframe']
    exact ⟨rfl, rfl, rfl, rfl, hafter, hstate⟩
  | case2 registry offset data consumed state error after hframe =>
    obtain ⟨after', hframe', hafter⟩ := Registry.nextFrame_of_schema_eq hsame hframe
    rw [drain_unreadable hframe']
    exact ⟨rfl, rfl, rfl, rfl, hafter, hstate⟩
  | case3 registry offset data consumed state event size error after hframe ih =>
    obtain ⟨after', hframe', hafter⟩ := Registry.nextFrame_of_schema_eq hsame hframe
    rw [drain_rejected hframe']
    exact ih hafter (h.reject error hstate)
  | case4 registry offset data consumed state event size record after hframe next hconsume ih =>
    obtain ⟨after', hframe', hafter⟩ := Registry.nextFrame_of_schema_eq hsame hframe
    obtain ⟨hanswer, hnext⟩ := h.consume event record hstate
    rw [hconsume] at hanswer hnext
    rw [drain_consumed hframe' (Prod.ext hanswer.symm rfl)]
    exact ih hafter hnext
  | case5 registry offset data consumed state event size record after hframe error next hconsume =>
    obtain ⟨after', hframe', hafter⟩ := Registry.nextFrame_of_schema_eq hsame hframe
    obtain ⟨hanswer, hnext⟩ := h.consume event record hstate
    rw [hconsume] at hanswer hnext
    rw [drain_refused hframe' (Prod.ext hanswer.symm rfl)]
    exact ⟨rfl, rfl, rfl, rfl, hafter, hnext⟩

/-- **A chunk cannot tell apart** what answers alike: consumers in states that
are alike, and registries of one schema. -/
theorem Framer.feed_matches {Alike : σ → τ → Prop} {other : Consumer τ}
    (h : consumer.Simulates Alike other) {registry registry' : Registry}
    (hsame : registry.schema = registry'.schema) (framer : Framer) (chunk : Bytes)
    {state : σ} {state' : τ} (hstate : Alike state state') :
    (framer.feed consumer registry chunk state).Matches Alike
      (framer.feed other registry' chunk state') := by
  have hdrain := drain_matches h hsame framer.offset (framer.pending ++ chunk) 0 hstate
  unfold feed
  cases framer.halted with
  | some cause => exact ⟨rfl, rfl, hsame, hstate⟩
  | none =>
    dsimp only
    rw [hdrain.consumed, hdrain.error, hdrain.offset, hdrain.rest]
    split
    · exact ⟨rfl, rfl, hdrain.sameSchema, hdrain.state⟩
    · split <;> exact ⟨rfl, rfl, hdrain.sameSchema, hdrain.state⟩

theorem Consumer.simulates_self (consumer : Consumer σ) : consumer.Simulates Eq consumer where
  consume event record state state' halike := by
    subst halike
    exact ⟨rfl, rfl⟩
  reject error state state' halike := by
    subst halike
    rfl

/-- What a registry remembers makes no difference to a chunk. -/
theorem Framer.feed_of_schema_eq {registry registry' : Registry}
    (hsame : registry.schema = registry'.schema) (framer : Framer) (consumer : Consumer σ)
    (chunk : Bytes) (state : σ) :
    (framer.feed consumer registry chunk state).Matches Eq
      (framer.feed consumer registry' chunk state) :=
  feed_matches consumer.simulates_self hsame framer chunk rfl

/-! ## A run is a scan -/

namespace Framer

variable {framer : Framer} {registry : Registry} {state : σ} {consumer : Consumer σ}
  {schema : Schema} {start : σ} {stream : Bytes}

/-- **Any chunks keep the framer in step.** -/
theorem InStep.feedAll (h : InStep framer registry state consumer schema start stream)
    (hnever : consumer.NeverFails) (chunks : List Bytes) :
    InStep (framer.feedAll consumer registry chunks state).framer
      (framer.feedAll consumer registry chunks state).registry
      (framer.feedAll consumer registry chunks state).state consumer schema start
      (stream ++ chunks.flatten) := by
  induction chunks generalizing framer registry state stream with
  | nil =>
    rw [List.flatten_nil, List.append_nil]
    exact h
  | cons chunk chunks ih =>
    rw [List.flatten_cons, ← List.append_assoc]
    exact ih (h.feed hnever chunk)

/-- A stream that can be read is answered with counts, which make up the
number of records delivered. -/
theorem InStep.results_feedAll (h : InStep framer registry state consumer schema start stream)
    (hnever : consumer.NeverFails) (chunks : List Bytes)
    (hreadable : (schema.scan 0 (stream ++ chunks.flatten)).error = none) :
    ∃ counts : List Nat,
      (framer.feedAll consumer registry chunks state).results = counts.map .ok ∧
      (schema.scan 0 stream).delivered + counts.sum =
        (schema.scan 0 (stream ++ chunks.flatten)).delivered := by
  induction chunks generalizing framer registry state stream with
  | nil => exact ⟨[], rfl, by simp⟩
  | cons chunk chunks ih =>
    rw [List.flatten_cons, ← List.append_assoc] at hreadable ⊢
    obtain ⟨count, hresult, hcount⟩ :=
      h.feed_ok hnever (Schema.scan_error_of_append hreadable)
    obtain ⟨counts, hresults, hcounts⟩ := ih (h.feed hnever chunk) hreadable
    refine ⟨count :: counts, ?_, ?_⟩
    · rw [List.map_cons, ← hresult, ← hresults]
      rfl
    · rw [List.sum_cons, ← hcounts, ← hcount, Nat.add_assoc]

/-- The first error that is returned is the one at which the scan stops. -/
theorem InStep.firstError?_feedAll
    (h : InStep framer registry state consumer schema start stream)
    (hnever : consumer.NeverFails) (hreading : framer.halted = none) (chunks : List Bytes) :
    (framer.feedAll consumer registry chunks state).firstError? =
      (schema.scan 0 (stream ++ chunks.flatten)).error := by
  induction chunks generalizing framer registry state stream with
  | nil =>
    rw [List.flatten_nil, List.append_nil, ← h.halted, hreading]
    rfl
  | cons chunk chunks ih =>
    rw [List.flatten_cons, ← List.append_assoc]
    have hnext := h.feed hnever chunk
    cases herror : (schema.scan 0 (stream ++ chunk)).error with
    | some error =>
      rw [Schema.scan_append_of_error herror, herror]
      show List.findSome? _ ((framer.feed consumer registry chunk state).result :: _) = _
      rw [h.feed_error hnever hreading herror]
      rfl
    | none =>
      obtain ⟨count, hresult, -⟩ := h.feed_ok hnever herror
      show List.findSome? _ ((framer.feed consumer registry chunk state).result :: _) = _
      rw [hresult]
      exact ih hnext (hnext.halted.trans herror)

/-- **A fresh framer reports a scan of its stream**, however the stream is
cut. -/
theorem feedAll_reports {consumer : Consumer σ} (hnever : consumer.NeverFails)
    (registry : Registry) (chunks : List Bytes) (start : σ) :
    (feedAll {} consumer registry chunks start).Reports
      (registry.schema.scan 0 chunks.flatten) := by
  have hfresh := inStep_fresh registry consumer start
  have hrun := hfresh.feedAll hnever chunks
  rw [List.nil_append] at hrun
  refine ⟨hrun.halted, hfresh.firstError?_feedAll hnever rfl chunks, ?_, ?_⟩
  · intro hreadable
    exact (hrun.pending (hrun.halted.trans hreadable)).1
  · intro hreadable
    obtain ⟨counts, hresults, hcounts⟩ := hfresh.results_feedAll hnever chunks hreadable
    refine ⟨counts, hresults, ?_⟩
    have hempty : (registry.schema.scan 0 []).delivered = 0 := by
      rw [Schema.scan_incomplete (show registry.schema.nextFrame 0 [] = .incomplete from rfl)]
      rfl
    rwa [hempty, Nat.zero_add] at hcounts

/-- **The consumer is told what the scan says**, however the stream is cut. -/
theorem callsOf_eq_scan {consumer : Consumer σ} (hnever : consumer.NeverFails)
    (registry : Registry) (chunks : List Bytes) (start : σ) :
    callsOf {} consumer registry chunks start =
      (registry.schema.scan 0 chunks.flatten).calls := by
  have hrun := (inStep_fresh registry consumer.logged ([], start)).feedAll hnever.logged chunks
  rw [List.nil_append] at hrun
  rw [callsOf, hrun.told, Consumer.tellAll_logged]
  rfl

/-- **Cuts leave no trace.** Two ways of cutting one stream into chunks, each
for a fresh framer without limit and a consumer that never fails, lead to
the same calls with the same arguments in the same order, halt both framers
or neither, and return the same first error, if any. Framers that have not
halted hold the same pending bytes and have returned the same number of
records. The registries may have been used in any way, as long as they are
of one schema. -/
theorem feedAll_chunking {τ : Type} {registry registry' : Registry} {consumer : Consumer σ}
    {consumer' : Consumer τ} {chunks chunks' : List Bytes}
    (hsame : registry.schema = registry'.schema) (hnever : consumer.NeverFails)
    (hnever' : consumer'.NeverFails) (hstream : chunks.flatten = chunks'.flatten)
    (start : σ) (start' : τ) :
    let run := feedAll {} consumer registry chunks start
    let run' := feedAll {} consumer' registry' chunks' start'
    callsOf {} consumer registry chunks start = callsOf {} consumer' registry' chunks' start' ∧
      run.framer.isHalted = run'.framer.isHalted ∧
      run.firstError? = run'.firstError? ∧
      (run.framer.isHalted = false →
        run.framer.pending = run'.framer.pending ∧ run.total = run'.total) := by
  intro run run'
  have hrun := feedAll_reports hnever registry chunks start
  have hrun' := feedAll_reports hnever' registry' chunks' start'
  rw [← hsame, ← hstream] at hrun'
  refine ⟨?_, ?_, hrun.firstError.trans hrun'.firstError.symm, ?_⟩
  · rw [callsOf_eq_scan hnever, callsOf_eq_scan hnever', hsame, hstream]
  · rw [isHalted, isHalted, hrun.halted, hrun'.halted]
  · intro hreading
    have hreadable : (registry.schema.scan 0 chunks.flatten).error = none := by
      rwa [isHalted, hrun.halted, Option.isSome_eq_false_iff, Option.isNone_iff_eq_none]
        at hreading
    refine ⟨(hrun.pending hreadable).trans (hrun'.pending hreadable).symm, ?_⟩
    obtain ⟨counts, hresults, hsum⟩ := hrun.counts hreadable
    obtain ⟨counts', hresults', hsum'⟩ := hrun'.counts hreadable
    rw [Run.total_of_counts hresults, Run.total_of_counts hresults', hsum, hsum']

/-- A registry with one event, which has a text. -/
def sayRegistry : Registry :=
  (Registry.ofSettings {}).perform (.define 7 "say" [⟨"text", .blob .string⟩])

/-- A record, one whose text is not UTF-8, and an id that no event has. -/
def hostileStream : Bytes :=
  [0x07, 0x00, 0x00, 0x00, 0x0a, 0x00, 0x00, 0x00, 0x02, 0x68, 0x69,
    0x07, 0x00, 0x00, 0x00, 0x09, 0x00, 0x00, 0x00, 0x01, 0xff, 0x09, 0x07]

theorem feedAll_chunking_hostile :
    let run := feedAll {} Consumer.collector sayRegistry [hostileStream] []
    let run' := feedAll {} Consumer.collector sayRegistry.compileAll.2
      (hostileStream.map ([·])) []
    callsOf {} Consumer.collector sayRegistry [hostileStream] [] =
        callsOf {} Consumer.collector sayRegistry.compileAll.2 (hostileStream.map ([·])) [] ∧
      run.firstError? = some (.unknownPacket 9 21) ∧
      run'.firstError? = some (.unknownPacket 9 21) := by
  have hsame : sayRegistry.schema = sayRegistry.compileAll.2.schema := by simp
  have hnever : Consumer.collector.NeverFails := fun _ _ _ => rfl
  have hstream : [hostileStream].flatten = (hostileStream.map ([·])).flatten := by decide
  obtain ⟨hcalls, -, hfirst, -⟩ := feedAll_chunking hsame hnever hnever hstream [] []
  have herror : (feedAll {} Consumer.collector sayRegistry [hostileStream] []).firstError? =
      some (.unknownPacket 9 21) := by cbv
  exact ⟨hcalls, herror, hfirst.symm.trans herror⟩

end Framer

end EventWire
