/-
EventWire.Proofs.Refusals — what a refused record leaves behind.

A consumer that refuses a record ends the draining of the chunk. The chunk is
answered with the consumer's error, the record is off the stream, and all
that follows it is pending (`Turn.RefusedAt`). The next chunk goes on with
the record that follows.

It goes on if the error is not a fatal one (`Framer.turn_refused`). The
framer cannot tell an error of its consumer from one of its own, and one that
says of some other stream that it cannot be read any further halts this one
too (`Framer.refusal_halts`).
-/
import EventWire.Proofs.Accounting

namespace EventWire

variable {σ : Type}

namespace Turn

variable {turn : Turn σ} {schema : Schema}

/-- A turn in which a record was refused is one that ended with it. -/
theorem Obeys.refused (h : turn.Obeys schema) {error : CodecError} (hmem : error ∈ turn.refusals) :
    turn.result = .error error ∧
      turn.after.halted = (if error.isFatal then some error else none) ∧
      schema.Reads turn.before.offset (turn.before.pending ++ turn.chunk) turn.calls
        turn.after.offset turn.after.pending ∧
      ∃ earlier event record, Exchange.refusals earlier = [] ∧
        turn.exchanges = earlier ++ [⟨.consume event record, some error⟩] := by
  cases h with
  | ignored _ hexchanges _ _ =>
    rw [Turn.refusals, hexchanges] at hmem
    cases hmem
  | read _ _ hreads hends =>
    cases hends with
    | waiting hnone _ _ _ _ | overflow hnone _ _ _ _ | unreadable hnone _ _ _ =>
      rw [hnone] at hmem
      cases hmem
    | @refused earlier event record last hnone hlast hhalted hresult =>
      rw [refusals_eq_singleton hnone hlast] at hmem
      obtain rfl := List.mem_singleton.mp hmem
      exact ⟨hresult, hhalted, hreads, earlier, event, record, hnone, hlast⟩

/-- Where a whole record lies ahead, a turn at a framer that has not halted
begins with it. -/
theorem Obeys.calls_eq_cons (h : turn.Obeys schema) (hreading : turn.before.halted = none)
    {event : String} {size : Nat} {body : Except CodecError Record}
    (hframe : schema.nextFrame turn.before.offset (turn.before.pending ++ turn.chunk) =
      .whole event size body) :
    ∃ later, turn.calls = .ofBody event body :: later := by
  cases h with
  | ignored hhalted _ _ _ =>
    rw [hreading] at hhalted
    exact nomatch hhalted
  | read _ _ hreads hends =>
    refine hreads.calls_eq_cons hframe fun hnil => ?_
    rw [hnil] at hreads
    obtain ⟨hoffset, hpending⟩ := hreads.eq_of_nil
    cases hends with
    | waiting _ hother _ _ _ | overflow _ hother _ _ _ | unreadable _ hother _ _ =>
      rw [hoffset, hpending, hframe] at hother
      exact nomatch hother
    | refused _ _ hlast _ _ =>
      rw [Turn.calls, hlast] at hnil
      simp [Exchange.calls] at hnil

/-- A record of `frame`, which comes after those of `frames`, was refused with
`error`. -/
structure RefusedAt (turn : Turn σ) (registry : Registry) (error : CodecError)
    (frames : List Bytes) (frame : Bytes) : Prop where
  /-- The chunk is answered with the consumer's error. -/
  result : turn.result = .error error
  /-- All records before it were taken, and none was handed over after it. -/
  last : ∃ earlier event record,
    turn.exchanges = earlier ++ [⟨.consume event record, some error⟩] ∧
      Exchange.refusals earlier = [] ∧
      List.Forall₂ registry.Tells frames (Exchange.calls earlier) ∧
      registry.Tells frame (.consume event record)
  /-- It is off the stream, and what follows it is pending. -/
  bytes : turn.before.pending ++ turn.chunk = frames.flatten ++ frame ++ turn.after.pending
  offset : turn.after.offset = turn.before.offset + (frames.flatten ++ frame).length

end Turn

namespace Framer

/-- **A refusal takes its record off the stream and nothing else.** If the
consumer refuses a record with some error, whatever chunk the record came in
and whatever was pending, then the chunk is answered with that error, the
record is off the stream and all later bytes are pending. Unless the error is
a fatal one the framer has not halted, and whatever chunk comes next, with
any consumer, the first call is about the record that follows. -/
theorem turn_refused {framer : Framer} {consumer : Consumer σ} {registry : Registry}
    {chunk : Bytes} {state : σ} {error : CodecError}
    (hmem : error ∈ (framer.turn consumer registry chunk state).refusals) :
    let turn := framer.turn consumer registry chunk state
    (∃ frames frame, turn.RefusedAt registry error frames frame) ∧
      turn.after.halted = (if error.isFatal then some error else none) ∧
      (error.isFatal = false →
        ∀ (τ : Type) (other : Consumer τ) (start : τ) (more : Bytes) (event : String) (size : Nat)
          (body : Except CodecError Record),
          (turn.registry.nextFrame turn.after.offset (turn.after.pending ++ more)).1 =
              .whole event size body →
            ∃ later, (turn.after.turn other turn.registry more start).calls =
              .ofBody event body :: later) := by
  intro turn
  have hobeys : turn.Obeys registry.schema := turn_obeys ..
  obtain ⟨hresult, hhalted, hreads, earlier, event, record, hnone, hlast⟩ := hobeys.refused hmem
  refine ⟨?_, hhalted, ?_⟩
  · obtain ⟨frames, hbytes, hoffset, htells⟩ := hreads.frames
    rw [Turn.calls, hlast, Exchange.calls_append] at htells
    have hflip : List.Forall₂ (fun call frame => registry.Tells frame call)
        (Exchange.calls earlier ++ [.consume event record]) frames := htells.flip
    obtain ⟨before, last, hbefore, hlast', rfl⟩ := forall₂_append_left_iff.mp hflip
    obtain ⟨frame, rest, hframe, hrest, rfl⟩ := List.forall₂_cons_left_iff.mp hlast'
    obtain rfl := List.forall₂_nil_left_iff.mp hrest
    rw [List.flatten_append, List.flatten_singleton] at hbytes hoffset
    exact ⟨before, frame, hresult, ⟨earlier, event, record, hlast, hnone, hbefore.flip, hframe⟩,
      hbytes, hoffset⟩
  · intro hfatal τ other start more event size body hframe
    have hnext := turn_obeys turn.after other turn.registry more start
    rw [Registry.nextFrame_fst] at hframe
    refine hnext.calls_eq_cons ?_ hframe
    rw [before_turn, hhalted, hfatal]
    rfl

/-- Two records, of which the first is refused. -/
def twiceSaid : Bytes := hostileStream.take 11 ++ hostileStream.take 11

/-- What is left of a chunk whose first record was refused with `error`. -/
def refusedOnce (error : CodecError) : Turn (List (Except CodecError Unit)) :=
  turn {} .scripted sayRegistry twiceSaid [.error error]

theorem refusals_refusedOnce (error : CodecError) : (refusedOnce error).refusals = [error] := by
  cbv

theorem turn_refused_once :
    let error : CodecError := .sinkClosed "full"
    error ∈ (refusedOnce error).refusals ∧
      (∃ frames frame, (refusedOnce error).RefusedAt sayRegistry error frames frame) ∧
      (refusedOnce error).after.halted = none ∧
      ((refusedOnce error).after.turn .scripted (refusedOnce error).registry []
        (refusedOnce error).state).result = .ok 1 := by
  intro error
  have hmem : error ∈ (refusedOnce error).refusals := by
    rw [refusals_refusedOnce]
    exact List.mem_singleton_self error
  obtain ⟨hrefused, hhalted, -⟩ :=
    @turn_refused _ {} .scripted sayRegistry twiceSaid [.error error] error hmem
  exact ⟨hmem, hrefused, hhalted, by cbv⟩

/-- **A consumer can halt a framer** by refusing a record with an error that is
fatal of its kind, although the stream can be read on. The record that follows
is pending, and never handed over. -/
theorem refusal_halts :
    let error : CodecError := .unknownPacket 9 0
    let next := (refusedOnce error).after.turn .scripted (refusedOnce error).registry []
      (refusedOnce error).state
    (refusedOnce error).refusals = [error] ∧ (refusedOnce error).after.isHalted = true ∧
      (refusedOnce error).after.pending = hostileStream.take 11 ∧
      next.result = .error (.framingHalted error.message) ∧ next.calls = [] := by
  intro error next
  have hmem : error ∈ (refusedOnce error).refusals := by
    rw [refusals_refusedOnce]
    exact List.mem_singleton_self error
  have hobeys : (refusedOnce error).Obeys sayRegistry.schema := turn_obeys ..
  obtain ⟨-, hhalted, -⟩ := hobeys.refused hmem
  have hnext : next.Obeys _ := turn_obeys ..
  refine ⟨refusals_refusedOnce error, by rw [isHalted, hhalted]; rfl, by cbv, ?_⟩
  cases hnext with
  | ignored hcause hexchanges hresult _ =>
    obtain rfl := Option.some.inj (hhalted.symm.trans hcause)
    exact ⟨hresult, by rw [Turn.calls, hexchanges]; rfl⟩
  | read hreading _ _ _ => cases hhalted.symm.trans hreading

end Framer

end EventWire
