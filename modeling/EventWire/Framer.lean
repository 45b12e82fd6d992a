/-
EventWire.Framer — records out of a stream of bytes that arrives in chunks.

Chunks may be cut anywhere. What has arrived of an incomplete record is pending until the rest
comes. The header and the declared length tell where a record ends (`Registry.nextFrame`), so a
record whose body cannot be decoded is rejected and the next one is read. When the end of a record
cannot be told, nothing after it can be read: the framer halts and refuses every chunk until it is
reset.

* `drain` — takes whole records off the front of a buffer, one after the other.
* `Framer.feed` — one more chunk.
* `Framer.reset` — a new stream.

A consumer that refuses a record stops the draining there. That record is gone and what follows it
stays pending; the framer halts only if the consumer's error is a fatal one.
-/
import EventWire.Consumer
import EventWire.Registry

namespace EventWire

/-! ## The record at the front of a buffer -/

/-- What lies at the front of a buffer. -/
inductive Frame where
  /-- Not all of a record has arrived. -/
  | incomplete
  /-- No record can be told from the bytes. -/
  | unreadable (error : CodecError)
  /-- A record of `size` bytes, or why its body cannot be decoded. -/
  | whole (event : String) (size : Nat) (body : Except CodecError Record)

theorem Codec.pos_of_extent_known {codec : Codec} {data : Bytes} {size : Nat}
    (h : codec.extent data = .known size) : 0 < size := by
  have pos := codec.layout.headerWidth_pos
  unfold Codec.extent at h
  split at h
  · rename_i fixed eq
    unfold Layout.fixedSize? at eq
    split at eq
    · cases h
      cases eq
      omega
    · exact nomatch eq
  · split at h
    · split at h
      · rename_i declared eq
        cases h
        unfold Layout.recordLength at eq
        split at eq
        · exact nomatch eq
        · cases eq
          omega
      · exact nomatch h
    · exact nomatch h

/-- What lies at the front of a buffer of records of one event. -/
def Codec.nextFrame (codec : Codec) (data : Bytes) : Frame :=
  match codec.extent data with
  | .undetermined => .incomplete
  | .refused error => .unreadable error
  | .known size =>
    if data.reaches size then .whole codec.name size (codec.decodeWhole (data.take size))
    else .incomplete

/-- What lies at the front of `data`, which starts at `offset` in the stream. -/
def Registry.nextFrame (registry : Registry) (offset : Nat) (data : Bytes) : Frame × Registry :=
  match Header.read? data with
  | none => (.incomplete, registry)
  | some header =>
    match registry.codecOfHeader? header with
    | (none, after) => (.unreadable (.unknownPacket header.id offset), after)
    | (some codec, after) => (codec.nextFrame data, after)

/-- A whole record takes at least one byte, and only bytes that are there. -/
theorem Registry.nextFrame_whole {registry after : Registry} {offset : Nat} {data : Bytes}
    {event : String} {size : Nat} {body : Except CodecError Record}
    (h : registry.nextFrame offset data = (.whole event size body, after)) :
    0 < size ∧ size ≤ data.length := by
  unfold Registry.nextFrame at h
  split at h
  · exact nomatch h
  · split at h
    · exact nomatch h
    · rename_i codec _ _
      have frame : codec.nextFrame data = .whole event size body := congrArg Prod.fst h
      unfold Codec.nextFrame at frame
      split at frame
      · exact nomatch frame
      · exact nomatch frame
      · rename_i known eq
        split at frame
        · rename_i reached
          cases frame
          exact ⟨Codec.pos_of_extent_known eq, Bytes.reaches_iff.1 reached⟩
        · exact nomatch frame

/-! ## Draining a buffer -/

/-- What is left after a buffer has been drained. -/
structure Drained (σ : Type) where
  /-- The number of records that were consumed. -/
  consumed : Nat
  /-- Why draining stopped before an incomplete record or the end, if it did. -/
  error : Option CodecError
  /-- Where the rest starts in the stream. -/
  offset : Nat
  /-- What has not been used. -/
  rest : Bytes
  registry : Registry
  state : σ

variable {σ : Type}

/-- Takes whole records off the front of `data`, which starts at `offset` in the stream, after
`consumed` records have been taken. Every record takes at least one byte, so this comes to an
end. -/
def drain (consumer : Consumer σ) (registry : Registry) (offset : Nat) (data : Bytes)
    (consumed : Nat) (state : σ) : Drained σ :=
  match _h : registry.nextFrame offset data with
  | (.incomplete, after) => ⟨consumed, none, offset, data, after, state⟩
  | (.unreadable error, after) => ⟨consumed, some error, offset, data, after, state⟩
  | (.whole _ size (.error error), after) =>
    drain consumer after (offset + size) (data.drop size) consumed (consumer.reject error state)
  | (.whole event size (.ok record), after) =>
    match consumer.consume event record state with
    | (.ok (), state) =>
      drain consumer after (offset + size) (data.drop size) (consumed + 1) state
    | (.error error, state) =>
      ⟨consumed, some error, offset + size, data.drop size, after, state⟩
termination_by data.length
decreasing_by
  all_goals
    have := Registry.nextFrame_whole _h
    simp only [List.length_drop]
    omega

/-! ## Framers -/

/-- The reading end of a stream. -/
structure Framer where
  settings : FramerSettings := {}
  /-- What has arrived of an incomplete record, or has not been looked at. -/
  pending : Bytes := []
  /-- The error that made reading on impossible. -/
  halted : Option CodecError := none
  /-- Where the pending bytes start in the stream. -/
  offset : Nat := 0

/-- What a chunk has led to: the number of records consumed or an error, and what there is now. -/
structure Fed (σ : Type) where
  result : Except CodecError Nat
  framer : Framer
  registry : Registry
  state : σ

namespace Framer

def isHalted (framer : Framer) : Bool := framer.halted.isSome

/-- The framer after an error that makes reading on impossible. -/
def halt (framer : Framer) (error : CodecError) : Framer := { framer with halted := some error }

/-- A new stream with the same settings. -/
def reset (framer : Framer) : Framer := { settings := framer.settings }

/-- Whether more bytes are waiting than allowed. -/
def overflow? (framer : Framer) : Option CodecError :=
  match framer.settings.maxPending with
  | none => none
  | some limit =>
    if limit < framer.pending.length then some (.pendingOverflow framer.pending.length limit)
    else none

/-- One more chunk. An error of the draining is reported before an overflow is looked for. -/
def feed (framer : Framer) (consumer : Consumer σ) (registry : Registry) (chunk : Bytes)
    (state : σ) : Fed σ :=
  match framer.halted with
  | some cause => ⟨.error (.framingHalted cause.message), framer, registry, state⟩
  | none =>
    let drained := drain consumer registry framer.offset (framer.pending ++ chunk) 0 state
    let moved := { framer with pending := drained.rest, offset := drained.offset }
    match drained.error with
    | some error =>
      ⟨.error error, if error.isFatal then moved.halt error else moved, drained.registry,
        drained.state⟩
    | none =>
      match moved.overflow? with
      | some error => ⟨.error error, moved.halt error, drained.registry, drained.state⟩
      | none => ⟨.ok drained.consumed, moved, drained.registry, drained.state⟩

end Framer

end EventWire
