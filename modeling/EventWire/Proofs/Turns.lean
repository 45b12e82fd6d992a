/-
EventWire.Proofs.Turns — what a chunk can lead to, whoever listens.

A consumer may refuse a record. Draining ends there, with whole records left
over, so what a chunk does is no longer a scan of the stream. It is still a
walk along it: from one boundary of records to another, with one call for
every record passed.

* `Exchange` — a call together with the consumer's refusal, if it refused.
* `Schema.Reads` — a walk over whole records. It is the part of a scan that
  has been done (`Reads.scan_eq`), and it may be cut and joined anywhere.
* `Framer.turn` — one chunk, with the exchanges it led to. They are read off
  a consumer that keeps them, which changes nothing else (`feed_eq_turn`).
* `Turn.Obeys` — all that a turn can be: nothing at a halted framer, else a
  walk that ends in one of four ways (`Turn.Ends`). This is the only place
  where `Framer.feed` is opened for consumers that may fail
  (`Framer.turn_obeys`).
* `Framer.turns` — chunks one after the other, each with a consumer of its
  own. The framer stands where the walks of all turns have led
  (`reads_turns`).
-/
import EventWire.Proofs.Framing

namespace EventWire

variable {σ : Type}

/-! ## Walking over whole records -/

namespace Scan

theorem after_after (calls calls' : List Call) (scan : Scan) :
    (scan.after calls').after calls = scan.after (calls ++ calls') := by
  simp [after]

end Scan

/-- Whole records are read from `offset`, where `data` starts, up to `stop`,
where `rest` starts, and a consumer is told of each. -/
inductive Schema.Reads (schema : Schema) : Nat → Bytes → List Call → Nat → Bytes → Prop
  | stay (offset : Nat) (data : Bytes) : schema.Reads offset data [] offset data
  | pass {offset stop : Nat} {data rest : Bytes} {event : String} {size : Nat}
      {body : Except CodecError Record} {calls : List Call}
      (hframe : schema.nextFrame offset data = .whole event size body)
      (hrest : schema.Reads (offset + size) (data.drop size) calls stop rest) :
      schema.Reads offset data (.ofBody event body :: calls) stop rest

namespace Schema.Reads

variable {schema : Schema} {offset middle stop : Nat} {data between rest : Bytes}
  {calls calls' : List Call}

theorem trans (h : schema.Reads offset data calls middle between)
    (h' : schema.Reads middle between calls' stop rest) :
    schema.Reads offset data (calls ++ calls') stop rest := by
  induction h with
  | stay => exact h'
  | pass hframe _ ih => exact .pass hframe (ih h')

/-- More bytes behind what is left change nothing of what was read. -/
theorem append (h : schema.Reads offset data calls stop rest) (more : Bytes) :
    schema.Reads offset (data ++ more) calls stop (rest ++ more) := by
  induction h with
  | stay => exact .stay ..
  | @pass offset stop data rest event size body calls hframe _ ih =>
    have hsettled : schema.nextFrame offset data ≠ .incomplete := by simp [hframe]
    refine .pass ((Schema.nextFrame_append hsettled more).trans hframe) ?_
    rw [List.drop_append_of_le_length (Schema.nextFrame_whole hframe).2]
    exact ih

/-- What has been read is the first part of a scan. -/
theorem scan_eq (h : schema.Reads offset data calls stop rest) :
    schema.scan offset data = (schema.scan stop rest).after calls := by
  induction h with
  | stay => rfl
  | pass hframe _ ih =>
    rw [Schema.scan_whole hframe, ih, Scan.after_after]
    rfl

/-- Every record takes at least one byte. -/
theorem length_le (h : schema.Reads offset data calls stop rest) :
    rest.length + calls.length ≤ data.length := by
  induction h with
  | stay => exact Nat.le_refl _
  | pass hframe _ ih =>
    obtain ⟨hpos, hsize⟩ := Schema.nextFrame_whole hframe
    rw [List.length_drop] at ih
    rw [List.length_cons]
    omega

/-- A walk that passes no record stays where it is. -/
theorem eq_of_nil (h : schema.Reads offset data [] stop rest) : stop = offset ∧ rest = data := by
  cases h
  exact ⟨rfl, rfl⟩

/-- A walk that passes the whole record at the front tells of it first. -/
theorem calls_eq_cons (h : schema.Reads offset data calls stop rest) {event : String}
    {size : Nat} {body : Except CodecError Record}
    (hframe : schema.nextFrame offset data = .whole event size body) (hne : calls ≠ []) :
    ∃ later, calls = .ofBody event body :: later := by
  cases h with
  | stay => exact absurd rfl hne
  | pass hfirst _ =>
    rw [hframe] at hfirst
    cases hfirst
    exact ⟨_, rfl⟩

end Schema.Reads

/-! ## Exchanges with a consumer -/

/-- A call made to a consumer, and the error with which it refused the
record, if it did. -/
structure Exchange where
  call : Call
  refusal : Option CodecError

namespace Exchange

/-- A record that is handed over, and the answer. -/
def ofAnswer (event : String) (record : Record) (answer : Except CodecError Unit) : Exchange where
  call := .consume event record
  refusal :=
    match answer with
    | .ok () => none
    | .error error => some error

/-- Whether a record was handed over and taken. -/
def isTaken (exchange : Exchange) : Bool := exchange.call.isConsume && exchange.refusal.isNone

def calls (exchanges : List Exchange) : List Call := exchanges.map Exchange.call

/-- The errors with which records were refused, in order. -/
def refusals (exchanges : List Exchange) : List CodecError := exchanges.filterMap Exchange.refusal

@[simp] theorem refusals_append (xs ys : List Exchange) :
    refusals (xs ++ ys) = refusals xs ++ refusals ys :=
  List.filterMap_append

@[simp] theorem calls_append (xs ys : List Exchange) : calls (xs ++ ys) = calls xs ++ calls ys :=
  List.map_append

theorem refusal_eq_none {exchanges : List Exchange} (h : refusals exchanges = [])
    {exchange : Exchange} (hmem : exchange ∈ exchanges) : exchange.refusal = none :=
  List.filterMap_eq_nil_iff.mp h exchange hmem

/-- Without a refusal, the records taken are those that were handed over. -/
theorem countP_isTaken {exchanges : List Exchange} (h : refusals exchanges = []) :
    exchanges.countP isTaken = (calls exchanges).countP Call.isConsume := by
  rw [calls, List.countP_map]
  refine List.countP_congr fun exchange hmem => ?_
  simp [isTaken, refusal_eq_none h hmem]

end Exchange

/-- The same consumer, which keeps the exchanges had with it. -/
def Consumer.observed (consumer : Consumer σ) : Consumer (List Exchange × σ) where
  consume event record state :=
    ((consumer.consume event record state.2).1,
      state.1 ++ [.ofAnswer event record (consumer.consume event record state.2).1],
      (consumer.consume event record state.2).2)
  reject error state := (state.1 ++ [⟨.reject error, none⟩], consumer.reject error state.2)

theorem Consumer.hom_observed (consumer : Consumer σ) :
    Consumer.Hom Prod.snd consumer.observed consumer :=
  ⟨fun _ _ _ => rfl, fun _ _ => rfl⟩

/-- The consumer that answers as its script says, and takes every record once
that is at an end. -/
def Consumer.scripted : Consumer (List (Except CodecError Unit)) where
  consume _ _ script := (script.headD (.ok ()), script.tail)

/-! ## Draining, whoever listens -/

/-- Why a walk stopped where `rest` starts. -/
inductive Schema.Stops (schema : Schema) (offset : Nat) (rest : Bytes)
    (exchanges : List Exchange) : Option CodecError → Prop
  | incomplete (hnone : Exchange.refusals exchanges = [])
      (hframe : schema.nextFrame offset rest = .incomplete) :
      Stops schema offset rest exchanges none
  | unreadable {error : CodecError} (hnone : Exchange.refusals exchanges = [])
      (hframe : schema.nextFrame offset rest = .unreadable error) :
      Stops schema offset rest exchanges (some error)
  | refused (earlier : List Exchange) {event : String} {record : Record} {error : CodecError}
      (hnone : Exchange.refusals earlier = [])
      (hlast : exchanges = earlier ++ [⟨.consume event record, some error⟩]) :
      Stops schema offset rest exchanges (some error)

/-- An exchange without a refusal before the others changes nothing. -/
theorem Schema.Stops.cons {schema : Schema} {offset : Nat} {rest : Bytes}
    {exchanges : List Exchange} {error : Option CodecError}
    (h : schema.Stops offset rest exchanges error) (call : Call) :
    schema.Stops offset rest (⟨call, none⟩ :: exchanges) error := by
  cases h with
  | incomplete hnone hframe => exact .incomplete hnone hframe
  | unreadable hnone hframe => exact .unreadable hnone hframe
  | refused earlier hnone hlast =>
    subst hlast
    exact .refused (⟨call, none⟩ :: earlier) hnone rfl

/-- A buffer has been drained with some exchanges, which came after those of
`log`. -/
structure Drained.Walked (drained : Drained (List Exchange × σ)) (schema : Schema) (offset : Nat)
    (data : Bytes) (consumed : Nat) (log exchanges : List Exchange) : Prop where
  log : drained.state.1 = log ++ exchanges
  reads : schema.Reads offset data (Exchange.calls exchanges) drained.offset drained.rest
  stops : schema.Stops drained.offset drained.rest exchanges drained.error
  consumed : drained.consumed = consumed + exchanges.countP Exchange.isTaken
  sameSchema : drained.registry.schema = schema

theorem Drained.Walked.pass {drained : Drained (List Exchange × σ)} {schema : Schema}
    {offset size consumed : Nat} {data : Bytes} {event : String}
    {body : Except CodecError Record} {log exchanges : List Exchange}
    (hframe : schema.nextFrame offset data = .whole event size body)
    (h : drained.Walked schema (offset + size) (data.drop size)
      (consumed + [⟨.ofBody event body, none⟩].countP Exchange.isTaken)
      (log ++ [⟨.ofBody event body, none⟩]) exchanges) :
    drained.Walked schema offset data consumed log (⟨.ofBody event body, none⟩ :: exchanges) where
  log := by rw [h.log, List.append_assoc, List.singleton_append]
  reads := .pass hframe h.reads
  stops := h.stops.cons _
  consumed := by
    rw [h.consumed, ← List.singleton_append (l := exchanges), List.countP_append, Nat.add_assoc]
  sameSchema := h.sameSchema

/-- **A drain is a walk**, of which the consumer has been told, up to where
no whole record follows or a record is refused. -/
theorem drain_walked (consumer : Consumer σ) (registry : Registry) (offset : Nat) (data : Bytes)
    (consumed : Nat) (start : List Exchange × σ) :
    ∃ exchanges, (drain consumer.observed registry offset data consumed start).Walked
      registry.schema offset data consumed start.1 exchanges := by
  fun_induction drain consumer.observed registry offset data consumed start with
  | case1 registry offset data consumed start after hdrain =>
    obtain ⟨hframe, hschema⟩ := Registry.nextFrame_eq hdrain
    exact ⟨[], by simp, .stay .., .incomplete rfl hframe, rfl, hschema⟩
  | case2 registry offset data consumed start error after hdrain =>
    obtain ⟨hframe, hschema⟩ := Registry.nextFrame_eq hdrain
    exact ⟨[], by simp, .stay .., .unreadable rfl hframe, rfl, hschema⟩
  | case3 registry offset data consumed start event size error after hdrain ih =>
    obtain ⟨hframe, hschema⟩ := Registry.nextFrame_eq hdrain
    obtain ⟨exchanges, hwalked⟩ := ih
    rw [hschema] at hwalked
    exact ⟨_, hwalked.pass hframe⟩
  | case4 registry offset data consumed start event size record after hdrain next hconsume ih =>
    obtain ⟨hframe, hschema⟩ := Registry.nextFrame_eq hdrain
    obtain ⟨exchanges, hwalked⟩ := ih
    simp only [Consumer.observed, Prod.mk.injEq] at hconsume
    obtain ⟨htaken, rfl⟩ := hconsume
    rw [hschema] at hwalked
    rw [htaken] at hwalked ⊢
    exact ⟨_, hwalked.pass hframe⟩
  | case5 registry offset data consumed start event size record after hdrain error next hconsume =>
    obtain ⟨hframe, hschema⟩ := Registry.nextFrame_eq hdrain
    simp only [Consumer.observed, Prod.mk.injEq] at hconsume
    obtain ⟨hrefused, rfl⟩ := hconsume
    refine ⟨[⟨.consume event record, some error⟩], ?_, .pass hframe (.stay ..),
      .refused [] rfl rfl, rfl, hschema⟩
    rw [hrefused]
    rfl

/-! ## One chunk -/

/-- One chunk: what it met, the exchanges that it led to, and what there was
after it. -/
structure Turn (σ : Type) where
  before : Framer
  chunk : Bytes
  exchanges : List Exchange
  result : Except CodecError Nat
  after : Framer
  registry : Registry
  state : σ

/-- One more chunk, observed. -/
def Framer.turn (framer : Framer) (consumer : Consumer σ) (registry : Registry) (chunk : Bytes)
    (state : σ) : Turn σ :=
  let fed := framer.feed consumer.observed registry chunk ([], state)
  ⟨framer, chunk, fed.state.1, fed.result, fed.framer, fed.registry, fed.state.2⟩

/-- A chunk leads to the same, observed or not. -/
theorem Framer.feed_eq_turn (framer : Framer) (consumer : Consumer σ) (registry : Registry)
    (chunk : Bytes) (state : σ) :
    framer.feed consumer registry chunk state =
      ⟨(framer.turn consumer registry chunk state).result,
        (framer.turn consumer registry chunk state).after,
        (framer.turn consumer registry chunk state).registry,
        (framer.turn consumer registry chunk state).state⟩ :=
  Framer.feed_map consumer.hom_observed framer registry chunk ([], state)

namespace Turn

/-- The calls made to the consumer. -/
def calls (turn : Turn σ) : List Call := Exchange.calls turn.exchanges

/-- The errors with which the consumer refused records. -/
def refusals (turn : Turn σ) : List CodecError := Exchange.refusals turn.exchanges

/-- A turn that ended with a refusal had no other. -/
theorem refusals_eq_singleton {turn : Turn σ} {earlier : List Exchange} {event : String}
    {record : Record} {error : CodecError} (hnone : Exchange.refusals earlier = [])
    (hlast : turn.exchanges = earlier ++ [⟨.consume event record, some error⟩]) :
    turn.refusals = [error] := by
  rw [refusals, hlast, Exchange.refusals_append, hnone]
  rfl

/-- The bytes that the framer took up: a halted one takes none. -/
def heard (turn : Turn σ) : Bytes := if turn.before.isHalted then [] else turn.chunk

/-- How a turn ends at a framer that has not halted. -/
inductive Ends (turn : Turn σ) (schema : Schema) : Prop
  /-- Less than a record is left, and no more than may be pending. -/
  | waiting (hnone : turn.refusals = [])
      (hframe : schema.nextFrame turn.after.offset turn.after.pending = .incomplete)
      (hlimit : turn.after.overflow? = none) (hhalted : turn.after.halted = none)
      (hresult : turn.result = .ok (turn.exchanges.countP Exchange.isTaken))
  /-- Less than a record is left, but more than may be pending. -/
  | overflow {error : CodecError} (hnone : turn.refusals = [])
      (hframe : schema.nextFrame turn.after.offset turn.after.pending = .incomplete)
      (hlimit : turn.after.overflow? = some error) (hhalted : turn.after.halted = some error)
      (hresult : turn.result = .error error)
  /-- What is left cannot be read. -/
  | unreadable {error : CodecError} (hnone : turn.refusals = [])
      (hframe : schema.nextFrame turn.after.offset turn.after.pending = .unreadable error)
      (hhalted : turn.after.halted = some error) (hresult : turn.result = .error error)
  /-- The last record was refused. -/
  | refused (earlier : List Exchange) {event : String} {record : Record} {error : CodecError}
      (hnone : Exchange.refusals earlier = [])
      (hlast : turn.exchanges = earlier ++ [⟨.consume event record, some error⟩])
      (hhalted : turn.after.halted = if error.isFatal then some error else none)
      (hresult : turn.result = .error error)

/-- All that a turn can be. -/
inductive Obeys (turn : Turn σ) (schema : Schema) : Prop
  /-- A halted framer stays as it is, and says why. -/
  | ignored {cause : CodecError} (hhalted : turn.before.halted = some cause)
      (hexchanges : turn.exchanges = [])
      (hresult : turn.result = .error (.framingHalted cause.message))
      (hafter : turn.after = turn.before)
  /-- Else whole records are read from where the framer stood. -/
  | read (hreading : turn.before.halted = none)
      (hsettings : turn.after.settings = turn.before.settings)
      (hreads : schema.Reads turn.before.offset (turn.before.pending ++ turn.chunk) turn.calls
        turn.after.offset turn.after.pending)
      (hends : turn.Ends schema)

end Turn

namespace Framer

variable (framer : Framer) (consumer : Consumer σ) (registry : Registry) (chunk : Bytes) (state : σ)

@[simp] theorem before_turn : (framer.turn consumer registry chunk state).before = framer := rfl

@[simp] theorem chunk_turn : (framer.turn consumer registry chunk state).chunk = chunk := rfl

/-- **What a chunk can lead to.** -/
theorem turn_obeys : (framer.turn consumer registry chunk state).Obeys registry.schema := by
  cases hhalted : framer.halted with
  | some cause =>
    have hfed := feed_of_halted hhalted consumer.observed registry chunk ([], state)
    refine .ignored hhalted ?_ ?_ ?_ <;> simp only [turn, hfed]
  | none =>
    obtain ⟨exchanges, hwalked⟩ :=
      drain_walked consumer registry framer.offset (framer.pending ++ chunk) 0 ([], state)
    unfold turn feed
    rw [hhalted]
    dsimp only
    generalize drain consumer.observed registry framer.offset (framer.pending ++ chunk) 0
      ([], state) = drained at hwalked ⊢
    obtain ⟨consumed, error, offset, rest, after, log, next⟩ := drained
    obtain rfl : log = exchanges := hwalked.log
    obtain rfl : consumed = log.countP Exchange.isTaken := by simpa using hwalked.consumed
    have hreads := hwalked.reads
    have hstops := hwalked.stops
    cases hstops with
    | incomplete hnone hframe =>
      dsimp only
      split
      · rename_i error hlimit
        exact .read hhalted rfl hreads (.overflow hnone hframe hlimit rfl rfl)
      · rename_i hlimit
        exact .read hhalted rfl hreads (.waiting hnone hframe hlimit rfl rfl)
    | @unreadable error hnone hframe =>
      have hfatal : error.isFatal = true := Schema.isFatal_of_nextFrame hframe
      dsimp only
      rw [hfatal]
      exact .read hhalted rfl hreads (.unreadable hnone hframe rfl rfl)
    | @refused earlier event record error hnone hlast =>
      dsimp only
      cases hfatal : error.isFatal with
      | true =>
        exact .read hhalted rfl hreads (.refused earlier hnone hlast (by rw [hfatal]; rfl) rfl)
      | false =>
        exact .read hhalted rfl hreads (.refused earlier hnone hlast (by rw [hfatal]; rfl) rfl)

/-- A chunk leaves the schema as it was. -/
@[simp] theorem schema_turn :
    (framer.turn consumer registry chunk state).registry.schema = registry.schema := by
  cases hhalted : framer.halted with
  | some cause =>
    rw [turn, feed_of_halted hhalted]
  | none =>
    obtain ⟨exchanges, hwalked⟩ :=
      drain_walked consumer registry framer.offset (framer.pending ++ chunk) 0 ([], state)
    have hschema := hwalked.sameSchema
    unfold turn feed
    rw [hhalted]
    dsimp only
    split
    · exact hschema
    · split <;> exact hschema

end Framer

/-! ## One chunk after the other -/

/-- A chunk, and who listens to what is in it. -/
structure Feeding (σ : Type) where
  consumer : Consumer σ
  chunk : Bytes

/-- The turns that some chunks lead to, one after the other. All consumers
act on one state. -/
def Framer.turns (framer : Framer) (registry : Registry) : List (Feeding σ) → σ → List (Turn σ)
  | [], _ => []
  | feeding :: feedings, state =>
    let turn := framer.turn feeding.consumer registry feeding.chunk state
    turn :: turn.after.turns turn.registry feedings turn.state

namespace Turn

variable {turn : Turn σ} {schema : Schema} {heard : Bytes} {calls : List Call}

/-- A framer that stands where a walk along what it has heard has led stands
so after one more turn. -/
theorem Obeys.reads (h : turn.Obeys schema)
    (hreads : schema.Reads 0 heard calls turn.before.offset turn.before.pending) :
    schema.Reads 0 (heard ++ turn.heard) (calls ++ turn.calls) turn.after.offset
      turn.after.pending := by
  cases h with
  | ignored hhalted hexchanges _ hafter =>
    have hheard : turn.heard = [] := by simp [Turn.heard, Framer.isHalted, hhalted]
    have hcalls : turn.calls = [] := by simp [Turn.calls, hexchanges, Exchange.calls]
    rw [hheard, hcalls, hafter, List.append_nil, List.append_nil]
    exact hreads
  | read hreading _ hturn _ =>
    have hheard : turn.heard = turn.chunk := by simp [Turn.heard, Framer.isHalted, hreading]
    rw [hheard]
    exact (hreads.append turn.chunk).trans hturn

end Turn

namespace Framer

variable {framer : Framer} {registry : Registry} {feedings : List (Feeding σ)} {state : σ}
  {heard : Bytes} {calls : List Call}

/-- Every turn of a run obeys the schema that the run began with. -/
theorem obeys_of_mem_turns {turn : Turn σ} (h : turn ∈ framer.turns registry feedings state) :
    turn.Obeys registry.schema := by
  induction feedings generalizing framer registry state with
  | nil => exact nomatch h
  | cons feeding feedings ih =>
    rcases List.mem_cons.mp h with rfl | hlater
    · exact turn_obeys ..
    · have hobeys := ih hlater
      rwa [schema_turn] at hobeys

/-- **A framer stands where its walk has led**: over all bytes that it has
heard, with one call for each record, up to what is pending. -/
theorem reads_turns {earlier later : List (Turn σ)} {turn : Turn σ}
    (hreads : registry.schema.Reads 0 heard calls framer.offset framer.pending)
    (hturns : framer.turns registry feedings state = earlier ++ turn :: later) :
    registry.schema.Reads 0 (heard ++ (earlier ++ [turn]).flatMap Turn.heard)
      (calls ++ (earlier ++ [turn]).flatMap Turn.calls) turn.after.offset turn.after.pending := by
  induction feedings generalizing framer registry state heard calls earlier with
  | nil => exact absurd hturns (by simp [turns])
  | cons feeding feedings ih =>
    have hfirst := (turn_obeys framer feeding.consumer registry feeding.chunk state).reads hreads
    cases earlier with
    | nil =>
      obtain ⟨rfl, -⟩ := List.cons.inj hturns
      simpa using hfirst
    | cons first earlier =>
      obtain ⟨rfl, hrest⟩ := List.cons.inj hturns
      rw [← schema_turn framer feeding.consumer registry feeding.chunk state] at hfirst
      have hlater := ih hfirst hrest
      rw [schema_turn] at hlater
      simpa using hlater

end Framer

end EventWire
