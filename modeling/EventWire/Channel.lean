/-
EventWire.Channel — both directions of a connection over one registry.

    send      record → bytes → sink
    receive   chunk → framer → handler of the event, or consumer

Handlers take the place of the consumer for the records of one event each. They and the consumer
act on one state, the inbox; the sink's state is the outbox. The directions share nothing but the
registry.
-/
import EventWire.Framer
import EventWire.Sink

namespace EventWire

variable {α β : Type}

/-- What is done with the records of one event, by name. -/
abbrev Handlers (β : Type) := List (String × (Record → β → β))

namespace Handlers

/-- The handler of an event. -/
def find? (handlers : Handlers β) (event : String) : Option (Record → β → β) :=
  (List.find? (·.1 = event) handlers).map (·.2)

/-- The handlers with one for `event` in place of any earlier one. -/
def set (handlers : Handlers β) (event : String) (handler : Record → β → β) : Handlers β :=
  (event, handler) :: handlers.filter (·.1 ≠ event)

/-- The consumer that hands records to their handlers, and to `fallback` where there is none. -/
def route (handlers : Handlers β) (fallback : Consumer β) : Consumer β where
  consume event record inbox :=
    match handlers.find? event with
    | some handler => (.ok (), handler record inbox)
    | none => fallback.consume event record inbox
  reject := fallback.reject

end Handlers

/-- One end of a connection, with an outbox `α` and an inbox `β`. -/
structure Channel (α β : Type) where
  registry : Registry
  framer : Framer := {}
  sink : Sink α
  outbox : α
  consumer : Consumer β
  inbox : β
  handlers : Handlers β := []

namespace Channel

/-- Writes a record of the named event. -/
def send (channel : Channel α β) (event : String) (record : Record) :
    Except CodecError Unit × Channel α β :=
  let (encoded, registry) := channel.registry.encode event record
  match encoded with
  | .error error => (.error error, { channel with registry })
  | .ok bytes =>
    let (written, outbox) := channel.sink.write bytes channel.outbox
    (written, { channel with registry, outbox })

/-- Has a handler take the records of the named event from now on. -/
def on (channel : Channel α β) (event : String) (handler : Record → β → β) :
    Except CodecError (Channel α β) :=
  match channel.registry.eventOfName? event with
  | none => .error (.unknownEvent event)
  | some _ => .ok { channel with handlers := channel.handlers.set event handler }

/-- Takes one more chunk; answers with the number of records handed on. -/
def receive (channel : Channel α β) (chunk : Bytes) : Except CodecError Nat × Channel α β :=
  let fed := channel.framer.feed (channel.handlers.route channel.consumer) channel.registry chunk
    channel.inbox
  (fed.result, { channel with framer := fed.framer, registry := fed.registry, inbox := fed.state })

/-- Forgets the inbound stream. -/
def reset (channel : Channel α β) : Channel α β := { channel with framer := channel.framer.reset }

/-- Compiles all codecs; answers with the number of events. -/
def compileAll (channel : Channel α β) : Nat × Channel α β :=
  let (count, registry) := channel.registry.compileAll
  (count, { channel with registry })

/-- A line that shows the state of a channel. -/
def describe (channel : Channel α β) : String × Channel α β :=
  let (fingerprint, registry) := channel.registry.fingerprint
  (String.join
    ["ProtocolChannel \x7b events: ", toString registry.size,
      ", fingerprint: Fingerprint(", toString fingerprint.value.toNat,
      "), pending: ", toString channel.framer.pending.length,
      ", handlers: ", toString channel.handlers.length, " \x7d"],
    { channel with registry })

end Channel

end EventWire
