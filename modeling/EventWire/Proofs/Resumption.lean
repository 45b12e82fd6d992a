/-
EventWire.Proofs.Resumption — refusals lose and repeat nothing.

A consumer that refuses records leaves whole records pending, and they are
read with the next chunk, which may be empty. So a stream is read to its end
by feeding its chunks, and then empty ones as long as they are answered with
a refusal (`Framer.feedOut`). There are only so many of these, as each takes
a record off what is pending (`Turn.Obeys.length_lt_of_failure`).

Refusals, new chunks and records left over can follow one another in any
pattern. What carries the proof is that the framer keeps up with a scan of
the stream so far (`Framer.KeepsUp`): it is somewhere along the way, with the
calls made up to there, or it has halted where the scan has stopped. The scan
knows of no consumer, and it says what is told to one that takes all.

Only refusals that are not fatal are allowed here: the others halt the framer
(`Framer.turn_refused`).
-/
import EventWire.Proofs.Refusals

namespace EventWire

variable {σ τ : Type}

/-! ## Consumers whose refusals are not fatal -/

/-- Records are refused with errors that are not fatal, if at all. -/
def Consumer.RefusesSoftly (consumer : Consumer σ) : Prop :=
  ∀ event record state error,
    (consumer.consume event record state).1 = .error error → error.isFatal = false

theorem Consumer.refusesSoftly_mailbox : Consumer.mailbox.RefusesSoftly := by
  intro event record box error h
  unfold mailbox at h
  dsimp only at h
  split at h
  · exact nomatch h
  · obtain rfl := Except.error.inj h
    rfl

/-- What holds of the consumer's state and is kept by every call is kept by a
drain. -/
theorem drain_preserves {consumer : Consumer σ} {P : σ → Prop}
    (hconsume : ∀ event record state, P state → P (consumer.consume event record state).2)
    (hreject : ∀ error state, P state → P (consumer.reject error state)) (registry : Registry)
    (offset : Nat) (data : Bytes) (consumed : Nat) (state : σ) (h : P state) :
    P (drain consumer registry offset data consumed state).state := by
  fun_induction drain consumer registry offset data consumed state with
  | case1 => exact h
  | case2 => exact h
  | case3 registry offset data consumed state event size error after hframe ih =>
    exact ih (hreject error state h)
  | case4 registry offset data consumed state event size record after hframe next hanswer ih =>
    have hnext := hconsume event record state h
    rw [hanswer] at hnext
    exact ih hnext
  | case5 registry offset data consumed state event size record after hframe error next hanswer =>
    have hnext := hconsume event record state h
    rwa [hanswer] at hnext

theorem Framer.feed_preserves {consumer : Consumer σ} {P : σ → Prop}
    (hconsume : ∀ event record state, P state → P (consumer.consume event record state).2)
    (hreject : ∀ error state, P state → P (consumer.reject error state)) (framer : Framer)
    (registry : Registry) (chunk : Bytes) (state : σ) (h : P state) :
    P (framer.feed consumer registry chunk state).state := by
  unfold feed
  split
  · exact h
  · have hdrain := drain_preserves hconsume hreject registry framer.offset
      (framer.pending ++ chunk) 0 state h
    dsimp only
    split
    · exact hdrain
    · split <;> exact hdrain

theorem Exchange.refusals_ofAnswer {consumer : Consumer σ} (hsoft : consumer.RefusesSoftly)
    (event : String) (record : Record) (state : σ) :
    ∀ error ∈ refusals [.ofAnswer event record (consumer.consume event record state).1],
      error.isFatal = false := by
  intro error hmem
  cases hanswer : (consumer.consume event record state).1 with
  | ok => simp [hanswer, refusals, ofAnswer] at hmem
  | error refusal =>
    obtain rfl : error = refusal := by simpa [hanswer, refusals, ofAnswer] using hmem
    exact hsoft event record state error hanswer

theorem Framer.turn_soft {consumer : Consumer σ} (hsoft : consumer.RefusesSoftly)
    (framer : Framer) (registry : Registry) (chunk : Bytes) (state : σ) :
    ∀ error ∈ (framer.turn consumer registry chunk state).refusals, error.isFatal = false := by
  refine @feed_preserves _ consumer.observed
    (fun state => ∀ error ∈ Exchange.refusals state.1, error.isFatal = false)
    ?_ ?_ framer registry chunk ([], state) (by simp [Exchange.refusals])
  · intro event record state h error hmem
    rcases List.mem_append.mp (Exchange.refusals_append .. ▸ hmem) with hold | hnew
    · exact h error hold
    · exact Exchange.refusals_ofAnswer hsoft event record state.2 error hnew
  · intro error state h refusal hmem
    rcases List.mem_append.mp (Exchange.refusals_append .. ▸ hmem) with hold | hnew
    · exact h refusal hold
    · cases hnew

/-! ## Failures -/

namespace Turn

variable {turn : Turn σ} {schema : Schema}

/-- The error that a chunk is answered with, if the framer reads on after
it. -/
def failure? (turn : Turn σ) : Option CodecError :=
  match turn.result with
  | .ok _ => none
  | .error error => if error.isFatal then none else some error

/-- A chunk is answered with an error that is not fatal exactly if a record of
it was refused with that error. -/
theorem Obeys.toList_failure? (h : turn.Obeys schema) :
    turn.failure?.toList = turn.refusals.filter (!·.isFatal) := by
  unfold failure?
  cases h with
  | ignored _ hexchanges hresult _ =>
    rw [hresult, Turn.refusals, hexchanges]
    rfl
  | read _ _ _ hends =>
    cases hends with
    | waiting hnone _ _ _ hresult =>
      rw [hresult, hnone]
      rfl
    | overflow hnone _ hlimit _ hresult =>
      obtain ⟨limit, -, -, rfl⟩ := Framer.eq_of_overflow? hlimit
      rw [hresult, hnone]
      rfl
    | @unreadable error hnone hframe _ hresult =>
      have hfatal : error.isFatal = true := Schema.isFatal_of_nextFrame hframe
      rw [hresult, hnone]
      simp [hfatal]
    | @refused earlier event record error hnone hlast _ hresult =>
      rw [hresult, refusals_eq_singleton hnone hlast]
      cases hfatal : error.isFatal <;> simp [hfatal]

theorem Obeys.toList_failure?_of_soft (h : turn.Obeys schema)
    (hsoft : ∀ error ∈ turn.refusals, error.isFatal = false) :
    turn.failure?.toList = turn.refusals := by
  rw [h.toList_failure?, List.filter_eq_self]
  intro error hmem
  rw [hsoft error hmem]
  rfl

/-- A record that was refused is no longer pending. -/
theorem Obeys.length_lt_of_failure (h : turn.Obeys schema) {error : CodecError}
    (hfailure : turn.failure? = some error) :
    turn.after.pending.length < turn.before.pending.length + turn.chunk.length := by
  have hmem : error ∈ turn.refusals := by
    have hlist := h.toList_failure?
    rw [hfailure] at hlist
    have hfilter : error ∈ turn.refusals.filter (!·.isFatal) := by simp [← hlist]
    exact List.mem_of_mem_filter hfilter
  obtain ⟨-, -, hreads, earlier, event, record, -, hlast⟩ := h.refused hmem
  have hlength := hreads.length_le
  rw [Turn.calls, hlast, Exchange.calls_append] at hlength
  simp only [List.length_append, Exchange.calls, List.length_map, List.length_singleton] at hlength
  omega

end Turn

/-! ## Feeding out -/

namespace Framer

/-- Empty chunks, until one is not answered with a refusal. -/
def settle (framer : Framer) (consumer : Consumer σ) (registry : Registry) (state : σ) :
    List (Turn σ) :=
  let turn := framer.turn consumer registry [] state
  if _h : turn.failure?.isSome then turn :: turn.after.settle consumer turn.registry turn.state
  else [turn]
termination_by framer.pending.length
decreasing_by
  obtain ⟨error, hfailure⟩ := Option.isSome_iff_exists.mp _h
  exact (turn_obeys framer consumer registry [] state).length_lt_of_failure hfailure

/-- Some chunks, and then empty ones, until one is not answered with a
refusal. -/
def feedOut (framer : Framer) (consumer : Consumer σ) (registry : Registry) :
    List Bytes → σ → List (Turn σ)
  | [], state => framer.settle consumer registry state
  | chunk :: chunks, state =>
    let turn := framer.turn consumer registry chunk state
    turn :: turn.after.feedOut consumer turn.registry chunks turn.state

variable {registry : Registry} {consumer : Consumer σ}

/-- What holds of every turn with a consumer and a schema holds of all turns of
a run. -/
theorem forall_mem_settle {P : Turn σ → Prop} {schema : Schema}
    (hturn : ∀ (framer : Framer) (registry : Registry) (chunk : Bytes) (state : σ),
      registry.schema = schema → P (framer.turn consumer registry chunk state))
    (framer : Framer) (hschema : registry.schema = schema) (state : σ) :
    ∀ turn ∈ framer.settle consumer registry state, P turn := by
  have hfirst := hturn framer registry [] state hschema
  fun_induction settle framer consumer registry state with
  | case1 framer registry state turn hfailure ih =>
    have hafter : turn.registry.schema = schema := (schema_turn ..).trans hschema
    intro other hmem
    rcases List.mem_cons.mp hmem with rfl | hlater
    · exact hfirst
    · exact ih hafter (hturn _ _ _ _ hafter) other hlater
  | case2 framer registry state turn hnone =>
    intro other hmem
    obtain rfl := List.mem_singleton.mp hmem
    exact hfirst

theorem forall_mem_feedOut {P : Turn σ → Prop} {schema : Schema}
    (hturn : ∀ (framer : Framer) (registry : Registry) (chunk : Bytes) (state : σ),
      registry.schema = schema → P (framer.turn consumer registry chunk state))
    (framer : Framer) (hschema : registry.schema = schema) (chunks : List Bytes) (state : σ) :
    ∀ turn ∈ framer.feedOut consumer registry chunks state, P turn := by
  induction chunks generalizing framer registry state with
  | nil => exact forall_mem_settle hturn framer hschema state
  | cons chunk chunks ih =>
    intro other hmem
    rcases List.mem_cons.mp hmem with rfl | hlater
    · exact hturn framer registry chunk state hschema
    · exact ih _ ((schema_turn ..).trans hschema) _ other hlater

/-- The last turn of a run, and only it, is not one that ended with a
refusal. -/
theorem exists_last_settle (framer : Framer) (consumer : Consumer σ) (registry : Registry)
    (state : σ) :
    ∃ failed last, framer.settle consumer registry state = failed ++ [last] ∧
      (∀ turn ∈ failed, turn.chunk = [] ∧ turn.failure?.isSome) ∧ last.chunk = [] ∧
      last.failure? = none := by
  fun_induction settle framer consumer registry state with
  | case1 framer registry state turn hfailure ih =>
    obtain ⟨failed, last, hturns, hfailed, hlast⟩ := ih
    refine ⟨turn :: failed, last, by rw [hturns]; rfl, ?_, hlast⟩
    intro other hmem
    rcases List.mem_cons.mp hmem with rfl | hlater
    · exact ⟨rfl, hfailure⟩
    · exact hfailed other hlater
  | case2 framer registry state turn hnone =>
    exact ⟨[], turn, rfl, by simp, rfl, by simpa using hnone⟩

/-- A run takes its chunks and, if it has to, empty ones. -/
theorem exists_last_feedOut (framer : Framer) (consumer : Consumer σ) (registry : Registry)
    (chunks : List Bytes) (state : σ) :
    ∃ fed failed last, framer.feedOut consumer registry chunks state = fed ++ failed ++ [last] ∧
      fed.map Turn.chunk = chunks ∧ (∀ turn ∈ failed, turn.chunk = [] ∧ turn.failure?.isSome) ∧
      last.chunk = [] ∧ last.failure? = none := by
  induction chunks generalizing framer registry state with
  | nil =>
    obtain ⟨failed, last, hturns, hends⟩ := exists_last_settle framer consumer registry state
    exact ⟨[], failed, last, hturns, rfl, hends⟩
  | cons chunk chunks ih =>
    let turn := framer.turn consumer registry chunk state
    obtain ⟨fed, failed, last, hturns, hchunks, hends⟩ := ih turn.after turn.registry turn.state
    exact ⟨turn :: fed, failed, last, congrArg (turn :: ·) hturns, congrArg (chunk :: ·) hchunks,
      hends⟩

end Framer

/-! ## Keeping up with a scan -/

/-- The framer keeps up with a scan of the stream so far: it stands where the
calls made have led, or it has halted where the scan stops. -/
structure Framer.KeepsUp (framer : Framer) (schema : Schema) (stream : Bytes) (calls : List Call) :
    Prop where
  unlimited : framer.settings.maxPending = none
  reading : framer.halted = none →
    schema.Reads 0 stream calls framer.offset framer.pending
  halted : ∀ cause, framer.halted = some cause →
    (schema.scan 0 stream).error = some cause ∧ (schema.scan 0 stream).calls = calls

namespace Turn

variable {turn : Turn σ} {schema : Schema} {stream : Bytes} {calls : List Call}

/-- **A turn keeps up**, if nothing is refused with a fatal error. -/
theorem Obeys.keepsUp (hobeys : turn.Obeys schema)
    (hsoft : ∀ error ∈ turn.refusals, error.isFatal = false)
    (h : turn.before.KeepsUp schema stream calls) :
    turn.after.KeepsUp schema (stream ++ turn.chunk) (calls ++ turn.calls) := by
  cases hobeys with
  | ignored hhalted hexchanges _ hafter =>
    obtain ⟨herror, hcalls⟩ := h.halted _ hhalted
    have hnone : turn.calls = [] := by rw [Turn.calls, hexchanges]; rfl
    rw [hafter, hnone, List.append_nil]
    refine ⟨h.unlimited, fun hreading => ?_, fun cause hcause => ?_⟩
    · cases hhalted.symm.trans hreading
    · rw [Schema.scan_append_of_error herror]
      exact ⟨herror.trans (hhalted.symm.trans hcause), hcalls⟩
  | read hreading hsettings hturn hends =>
    have hreads := ((h.reading hreading).append turn.chunk).trans hturn
    have hunlimited : turn.after.settings.maxPending = none := by rw [hsettings, h.unlimited]
    refine ⟨hunlimited, fun _ => hreads, fun cause hcause => ?_⟩
    cases hends with
    | waiting _ _ _ hhalted _ => cases hhalted.symm.trans hcause
    | overflow _ _ hlimit _ _ =>
      obtain ⟨limit, hsome, -, -⟩ := Framer.eq_of_overflow? hlimit
      cases hunlimited.symm.trans hsome
    | unreadable _ hframe hhalted _ =>
      obtain rfl := Option.some.inj (hhalted.symm.trans hcause)
      rw [hreads.scan_eq, Schema.scan_unreadable hframe]
      exact ⟨rfl, List.append_nil _⟩
    | @refused earlier event record error hnone hlast hhalted _ =>
      have hmem : error ∈ turn.refusals := by
        rw [refusals_eq_singleton hnone hlast]
        exact List.mem_singleton_self error
      rw [hsoft error hmem] at hhalted
      cases hhalted.symm.trans hcause

/-- A turn that does not end with a refusal has caught up. -/
theorem Obeys.calls_eq_scan (hobeys : turn.Obeys schema)
    (hsoft : ∀ error ∈ turn.refusals, error.isFatal = false)
    (h : turn.before.KeepsUp schema stream calls) (hnone : turn.failure? = none) :
    calls ++ turn.calls = (schema.scan 0 (stream ++ turn.chunk)).calls := by
  have hafter := hobeys.keepsUp hsoft h
  have hrefusals : turn.refusals = [] := by rw [← hobeys.toList_failure?_of_soft hsoft, hnone]; rfl
  cases hhalted : turn.after.halted with
  | some cause => exact (hafter.halted cause hhalted).2.symm
  | none =>
    have hframe : schema.nextFrame turn.after.offset turn.after.pending = .incomplete := by
      cases hobeys with
      | ignored hbefore _ _ hsame =>
        rw [hsame] at hhalted
        exact nomatch hbefore.symm.trans hhalted
      | read _ _ _ hends =>
        cases hends with
        | waiting _ hframe _ _ _ | overflow _ hframe _ _ _ => exact hframe
        | unreadable _ _ hcause _ => exact nomatch hcause.symm.trans hhalted
        | refused _ hearlier hlast _ _ =>
          rw [refusals_eq_singleton hearlier hlast] at hrefusals
          exact absurd hrefusals (List.cons_ne_nil _ _)
    rw [(hafter.reading hhalted).scan_eq, Schema.scan_incomplete hframe]
    exact (List.append_nil _).symm

end Turn

namespace Framer

variable {framer : Framer} {registry : Registry} {consumer : Consumer σ} {schema : Schema}
  {stream : Bytes} {calls : List Call}

theorem calls_settle (hsoft : consumer.RefusesSoftly) (hschema : registry.schema = schema)
    (h : framer.KeepsUp schema stream calls) (state : σ) :
    calls ++ (framer.settle consumer registry state).flatMap Turn.calls =
      (schema.scan 0 stream).calls := by
  fun_induction settle framer consumer registry state generalizing calls with
  | case1 framer registry state turn hfailure =>
    rename_i ih
    have hobeys : turn.Obeys schema := hschema ▸ turn_obeys framer consumer registry [] state
    have hafter := hobeys.keepsUp (turn_soft hsoft _ _ _ _) h
    rw [chunk_turn, List.append_nil] at hafter
    rw [List.flatMap_cons, ← List.append_assoc]
    exact ih ((schema_turn ..).trans hschema) hafter
  | case2 framer registry state turn =>
    rename_i hnone
    have hobeys : turn.Obeys schema := hschema ▸ turn_obeys framer consumer registry [] state
    have hlast := hobeys.calls_eq_scan (turn_soft hsoft _ _ _ _) h (by simpa using hnone)
    rw [chunk_turn, List.append_nil] at hlast
    rw [List.flatMap_singleton]
    exact hlast

theorem calls_feedOut (hsoft : consumer.RefusesSoftly) (hschema : registry.schema = schema)
    (h : framer.KeepsUp schema stream calls) (chunks : List Bytes) (state : σ) :
    calls ++ (framer.feedOut consumer registry chunks state).flatMap Turn.calls =
      (schema.scan 0 (stream ++ chunks.flatten)).calls := by
  induction chunks generalizing framer registry state stream calls with
  | nil =>
    rw [List.flatten_nil, List.append_nil]
    exact calls_settle hsoft hschema h state
  | cons chunk chunks ih =>
    have hobeys : (framer.turn consumer registry chunk state).Obeys schema :=
      hschema ▸ turn_obeys ..
    have hafter := hobeys.keepsUp (turn_soft hsoft _ _ _ _) h
    rw [feedOut, List.flatMap_cons, ← List.append_assoc, List.flatten_cons, ← List.append_assoc]
    exact ih ((schema_turn ..).trans hschema) hafter _

theorem keepsUp_fresh (schema : Schema) : KeepsUp {} schema [] [] where
  unlimited := rfl
  reading _ := .stay ..
  halted _ hcause := nomatch hcause

/-- **Refusals lose and repeat nothing.** A stream is cut into chunks in any
way and fed, with empty chunks behind it until one is not answered with a
refusal, to a fresh framer without limit and a consumer whose refusals are
not fatal. The calls made are those that the stream leads to in one chunk with
a consumer that never refuses, with the same arguments and in the same order.
Every refusal is what one chunk, and only one, is answered with: the one whose
record it was. -/
theorem feedOut_resumes {other : Consumer τ} (hsoft : consumer.RefusesSoftly)
    (hnever : other.NeverFails) (registry : Registry) (chunks : List Bytes) (start : σ)
    (start' : τ) :
    let turns := feedOut {} consumer registry chunks start
    (∃ fed failed last, turns = fed ++ failed ++ [last] ∧ fed.map Turn.chunk = chunks ∧
        (∀ turn ∈ failed, turn.chunk = [] ∧ turn.failure?.isSome) ∧
        last.chunk = [] ∧ last.failure? = none) ∧
      turns.flatMap Turn.calls = callsOf {} other registry [chunks.flatten] start' ∧
      (∀ turn ∈ turns, turn.failure?.toList = turn.refusals) ∧
      turns.countP (·.failure?.isSome) =
        (turns.flatMap Turn.exchanges).countP (·.refusal.isSome) := by
  intro turns
  have hanswers : ∀ turn ∈ turns, turn.failure?.toList = turn.refusals := by
    refine forall_mem_feedOut (fun framer registry' chunk state hschema => ?_) {} rfl chunks start
    exact (hschema ▸ turn_obeys framer consumer registry' chunk state).toList_failure?_of_soft
      (turn_soft hsoft _ _ _ _)
  refine ⟨exists_last_feedOut {} consumer registry chunks start, ?_, hanswers, ?_⟩
  · have hcalls := calls_feedOut hsoft rfl (keepsUp_fresh registry.schema) chunks start
    rw [List.nil_append, List.nil_append] at hcalls
    rw [hcalls, callsOf_eq_scan hnever, List.flatten_singleton]
  · calc turns.countP (·.failure?.isSome)
        = (turns.filterMap Turn.failure?).length := List.length_filterMap_eq_countP.symm
      _ = (turns.flatMap Turn.refusals).length := by
          rw [List.filterMap_eq_flatMap_toList, List.flatMap_congr hanswers]
      _ = ((turns.flatMap Turn.exchanges).filterMap Exchange.refusal).length := by
          rw [List.filterMap_flatMap]
          rfl
      _ = (turns.flatMap Turn.exchanges).countP (·.refusal.isSome) :=
          List.length_filterMap_eq_countP

/-- The stream of a peer that goes on after its receiver has gone. -/
theorem feedOut_resumes_mailbox :
    let chunks := [twiceSaid.take 3, twiceSaid.drop 3 ++ hostileStream.drop 11]
    let turns := feedOut {} Consumer.mailbox sayRegistry chunks { isOpen := false }
    turns.flatMap Turn.calls =
        callsOf {} Consumer.collector sayRegistry [twiceSaid ++ hostileStream.drop 11] [] ∧
      turns.flatMap Turn.refusals = List.replicate 2 (.sinkClosed "record receiver dropped") ∧
      turns.countP (·.failure?.isSome) = 2 := by
  intro chunks turns
  obtain ⟨-, hcalls, -, hcount⟩ := feedOut_resumes Consumer.refusesSoftly_mailbox
    (fun _ _ _ => rfl : Consumer.collector.NeverFails) sayRegistry chunks { isOpen := false } []
  have hrefusals : turns.flatMap Turn.refusals =
      List.replicate 2 (.sinkClosed "record receiver dropped") := by cbv
  refine ⟨hcalls, hrefusals, hcount.trans ?_⟩
  cbv

end Framer

end EventWire
