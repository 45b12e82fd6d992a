/-
EventWire.Proofs.Directions — the two directions of a channel do not
interfere.

A channel sends and receives over one registry, and either direction makes
the registry remember codecs and freeze. That is all they share, and what a
registry remembers makes no difference to what is encoded or framed. So the
sends of a channel might as well be all that is asked of it, and so might all
the rest (`Channel.directions_apart`), also when records are refused, the sink
fails or the receiving side has halted.

* `Channel.observe` — what is seen of a request: how it is answered, and what
  is handed over in its course. `Channel.transcript` lists it request by
  request.
* `Channel.outbound`, `Channel.inbound` — all that a direction depends on and
  may change.
* `Channel.Apart` — a part of a channel goes its own way: other requests leave
  it alone, and its own are answered according to it. This is shown of one
  request at a time (`apart_outbound`, `apart_inbound`); that it is true of all
  requests in a row follows once for both (`Apart.transcript`).
* `Channel.written` — the pieces handed to the sink when a record is sent. They
  are read off a sink that keeps them, which changes nothing else
  (`send_eq_logged`).
-/
import EventWire.Proofs.Routing

namespace EventWire

variable {α β γ : Type}

/-- The same sink, which keeps the pieces that it is handed. -/
def Sink.logged (sink : Sink α) : Sink (List Bytes × α) where
  write bytes state :=
    ((sink.write bytes state.2).1, state.1 ++ [bytes], (sink.write bytes state.2).2)

/-- All that the sending direction of a channel depends on. -/
structure Outbound (α : Type) where
  sink : Sink α
  outbox : α
  schema : Schema

/-- All that the receiving direction of a channel depends on. -/
structure Inbound (β : Type) where
  framer : Framer
  consumer : Consumer β
  inbox : β
  handlers : Handlers β
  schema : Schema

namespace Channel

/-! ## What is seen -/

/-- The same channel, whose sink keeps what it is handed. -/
def logged (channel : Channel α β) : Channel (List Bytes × α) β :=
  { channel with sink := channel.sink.logged, outbox := ([], channel.outbox) }

/-- The pieces handed to the sink when a record is sent. -/
def written (channel : Channel α β) (event : String) (record : Record) : List Bytes :=
  (channel.logged.send event record).2.outbox.1

/-- What is seen of a request. -/
inductive Observation (β : Type) where
  /-- The answer to a record that was to be sent, and what the sink was handed. -/
  | sent (result : Except CodecError Unit) (written : List Bytes)
  | registered (result : Except CodecError Unit)
  /-- The answer to a chunk, what was handed to handlers and consumer, how much
  is pending and whether the framer has halted. -/
  | received (result : Except CodecError Nat) (receipts : List (Receipt β)) (pending : Nat)
      (halted : Bool)
  | reset (pending : Nat) (halted : Bool)

def observe (channel : Channel α β) : Request β → Observation β
  | .send event record =>
    .sent (channel.send event record).1 (channel.written event record)
  | .on event handler => .registered ((channel.on event handler).map fun _ => ())
  | .receive chunk =>
    .received (channel.receive chunk).1 (channel.receipts chunk)
      (channel.receive chunk).2.framer.pending.length (channel.receive chunk).2.framer.isHalted
  | .reset => .reset channel.reset.framer.pending.length channel.reset.framer.isHalted

/-- Some requests, one after the other, each with what is seen of it. -/
def transcript (channel : Channel α β) :
    List (Request β) → List (Request β × Observation β)
  | [] => []
  | request :: later =>
    (request, channel.observe request) :: (channel.serve request).transcript later

def Request.isSend : Request β → Bool
  | .send .. => true
  | _ => false

/-! ## One direction, request by request -/

/-- A part of a channel goes its own way: the requests that are not its own
leave it alone, and its own are answered according to it. -/
structure Apart (own : Request β → Bool) (part : Channel α β → γ) : Prop where
  leaves : ∀ channel request, own request = false → part (channel.serve request) = part channel
  observe : ∀ channel other request, own request = true → part channel = part other →
    channel.observe request = other.observe request
  serve : ∀ channel other request, own request = true → part channel = part other →
    part (channel.serve request) = part (other.serve request)

/-- **Requests in a row.** What is seen of the requests of a part is what is
seen of them alone, and they alone leave the part as it is. -/
theorem Apart.transcript {own : Request β → Bool} {part : Channel α β → γ} (h : Apart own part)
    {channel other : Channel α β} (hsame : part channel = part other)
    (requests : List (Request β)) :
    (channel.transcript requests).filter (own ·.1) = other.transcript (requests.filter own) ∧
      part (channel.serveAll requests) = part (other.serveAll (requests.filter own)) := by
  induction requests generalizing channel other with
  | nil => exact ⟨rfl, hsame⟩
  | cons request requests ih =>
    -- Either both channels take a step, or the second stands still meanwhile.
    cases hown : own request with
    | true =>
      obtain ⟨hlater, hpart⟩ := ih (h.serve channel other request hown hsame)
      have hobserve := h.observe channel other request hown hsame
      rw [Channel.transcript, List.filter_cons_of_pos (by simpa using hown),
        List.filter_cons_of_pos hown, Channel.transcript, hlater, hobserve]
      exact ⟨rfl, hpart⟩
    | false =>
      obtain ⟨hlater, hpart⟩ := ih ((h.leaves channel request hown).trans hsame)
      rw [Channel.transcript, List.filter_cons_of_neg (by simp [hown]),
        List.filter_cons_of_neg (by simp [hown])]
      exact ⟨hlater, hpart⟩

/-! ## Sending -/

def outbound (channel : Channel α β) : Outbound α :=
  ⟨channel.sink, channel.outbox, channel.registry.schema⟩

def inbound (channel : Channel α β) : Inbound β :=
  ⟨channel.framer, channel.consumer, channel.inbox, channel.handlers, channel.registry.schema⟩

theorem send_of_encode_ok (channel : Channel α β) {event : String} {record : Record}
    {bytes : Bytes} (h : (channel.registry.encode event record).1 = .ok bytes) :
    channel.send event record = ((channel.sink.write bytes channel.outbox).1,
      { channel with
        registry := (channel.registry.encode event record).2
        outbox := (channel.sink.write bytes channel.outbox).2 }) := by
  unfold send
  dsimp only
  rw [h]

theorem send_of_encode_error (channel : Channel α β) {event : String} {record : Record}
    {error : CodecError} (h : (channel.registry.encode event record).1 = .error error) :
    channel.send event record =
      (.error error, { channel with registry := (channel.registry.encode event record).2 }) := by
  unfold send
  dsimp only
  rw [h]

/-- What a record leads to does not depend on whether the sink keeps it. -/
theorem send_eq_logged (channel : Channel α β) (event : String) (record : Record) :
    channel.send event record = ((channel.logged.send event record).1,
      { channel with
        registry := (channel.logged.send event record).2.registry
        outbox := (channel.logged.send event record).2.outbox.2 }) := by
  have hlogged : channel.logged.registry = channel.registry := rfl
  cases hencode : (channel.registry.encode event record).1 with
  | ok bytes =>
    rw [send_of_encode_ok _ hencode, channel.logged.send_of_encode_ok hencode]
    rfl
  | error error =>
    rw [send_of_encode_error _ hencode, channel.logged.send_of_encode_error hencode]
    rfl

theorem written_of_encode_ok {channel : Channel α β} {event : String} {record : Record}
    {bytes : Bytes} (h : (channel.registry.encode event record).1 = .ok bytes) :
    channel.written event record = [bytes] := by
  rw [written, channel.logged.send_of_encode_ok h]
  rfl

theorem written_of_encode_error {channel : Channel α β} {event : String} {record : Record}
    {error : CodecError} (h : (channel.registry.encode event record).1 = .error error) :
    channel.written event record = [] := by
  rw [written, channel.logged.send_of_encode_error h]
  rfl

/-- A record that is sent, or is not, leaves the receiving direction alone. -/
theorem inbound_send (channel : Channel α β) (event : String) (record : Record) :
    (channel.send event record).2.inbound = channel.inbound := by
  have hschema := Registry.schema_encode channel.registry event record
  cases hencode : (channel.registry.encode event record).1 with
  | ok bytes => simp [send_of_encode_ok _ hencode, inbound, hschema]
  | error error => simp [send_of_encode_error _ hencode, inbound, hschema]

/-- What comes of a record depends on the sending direction alone. -/
theorem send_of_outbound_eq {channel other : Channel α β} (h : channel.outbound = other.outbound)
    (event : String) (record : Record) :
    (channel.send event record).1 = (other.send event record).1 ∧
      channel.written event record = other.written event record ∧
      (channel.send event record).2.outbound = (other.send event record).2.outbound := by
  obtain ⟨hsink, houtbox, hschema⟩ := Outbound.mk.inj h
  have hsame : (channel.registry.encode event record).1 =
      (other.registry.encode event record).1 := by
    rw [Registry.encode_fst, Registry.encode_fst, hschema]
  cases hencode : (other.registry.encode event record).1 with
  | ok bytes =>
    rw [hencode] at hsame
    simp [send_of_encode_ok _ hsame, send_of_encode_ok _ hencode, written_of_encode_ok hsame,
      written_of_encode_ok hencode, outbound, hsink, houtbox, hschema]
  | error error =>
    rw [hencode] at hsame
    simp [send_of_encode_error _ hsame, send_of_encode_error _ hencode,
      written_of_encode_error hsame, written_of_encode_error hencode, outbound, hsink, houtbox,
      hschema]

/-- A record is encoded and, if that succeeds, handed to the sink once. -/
structure SendsOnce (channel : Channel α β) (event : String) (record : Record) : Prop where
  /-- The sink is handed the encoding and nothing else, and its answer is that of
  the channel, be it that it has failed. -/
  encoded : ∀ bytes, (channel.registry.encode event record).1 = .ok bytes →
    channel.written event record = [bytes] ∧
      (channel.send event record).1 = (channel.sink.write bytes channel.outbox).1 ∧
      (channel.send event record).2.outbox = (channel.sink.write bytes channel.outbox).2
  /-- Without an encoding the sink is handed nothing. -/
  refused : ∀ error, (channel.registry.encode event record).1 = .error error →
    channel.written event record = [] ∧ (channel.send event record).1 = .error error ∧
      (channel.send event record).2.outbox = channel.outbox
  /-- The receiving direction is left alone. -/
  inbound : (channel.send event record).2.inbound = channel.inbound

theorem sendsOnce (channel : Channel α β) (event : String) (record : Record) :
    channel.SendsOnce event record where
  encoded bytes h := by simp [written_of_encode_ok h, send_of_encode_ok _ h]
  refused error h := by simp [written_of_encode_error h, send_of_encode_error _ h]
  inbound := inbound_send channel event record

/-! ## Receiving -/

/-- What comes of a chunk depends on the receiving direction alone. -/
theorem receive_of_inbound_eq {channel other : Channel α β} (h : channel.inbound = other.inbound)
    (chunk : Bytes) :
    (channel.receive chunk).1 = (other.receive chunk).1 ∧
      (channel.receive chunk).2.inbound = (other.receive chunk).2.inbound := by
  obtain ⟨hframer, hconsumer, hinbox, hhandlers, hschema⟩ := Inbound.mk.inj h
  have hfed := Framer.feed_of_schema_eq hschema other.framer
    (other.handlers.route other.consumer) chunk other.inbox
  rw [receive, receive, hframer, hconsumer, hinbox, hhandlers]
  refine ⟨hfed.result, ?_⟩
  simp [inbound, hfed.framer, hfed.state, hfed.sameSchema]

theorem receipts_of_inbound_eq {channel other : Channel α β} (h : channel.inbound = other.inbound)
    (chunk : Bytes) : channel.receipts chunk = other.receipts chunk := by
  obtain ⟨hframer, hconsumer, hinbox, hhandlers, hschema⟩ := Inbound.mk.inj h
  have hnoting : channel.noting.inbound = other.noting.inbound := by
    simp [noting, inbound, hframer, hconsumer, hinbox, hhandlers, hschema]
  have hreceive := (receive_of_inbound_eq hnoting chunk).2
  exact congrArg (fun inbound => inbound.inbox.1) hreceive

/-- A handler is registered according to the receiving direction alone. -/
theorem on_of_inbound_eq {channel other : Channel α β} (h : channel.inbound = other.inbound)
    (event : String) (handler : Record → β → β) :
    (channel.on event handler).map (fun _ => ()) = (other.on event handler).map (fun _ => ()) ∧
      (channel.serve (.on event handler)).inbound = (other.serve (.on event handler)).inbound := by
  obtain ⟨-, -, -, hhandlers, hschema⟩ := Inbound.mk.inj h
  have hfound : channel.registry.eventOfName? event = other.registry.eventOfName? event :=
    congrArg (fun schema => schema.events.find? (·.name = event)) hschema
  cases hevent : other.registry.eventOfName? event with
  | none =>
    rw [hevent] at hfound
    simpa [serve, on, hevent, hfound, Except.map, Except.toOption] using h
  | some defined =>
    rw [hevent] at hfound
    simp only [inbound, Inbound.mk.injEq] at h
    simp [serve, on, hevent, hfound, Except.map, Except.toOption, inbound, h]

theorem outbound_receive (channel : Channel α β) (chunk : Bytes) :
    (channel.receive chunk).2.outbound = channel.outbound := by
  have hschema : (channel.receive chunk).2.registry.schema = channel.registry.schema := by
    unfold receive
    rw [Framer.feed_eq_turn]
    exact Framer.schema_turn ..
  rw [outbound, hschema]
  rfl

/-! ## Both directions -/

/-- **The sending direction** depends on sends alone. -/
theorem apart_outbound : Apart Request.isSend (outbound : Channel α β → Outbound α) where
  leaves channel request hother := by
    cases request with
    | send event record => exact nomatch hother
    | receive chunk => exact outbound_receive channel chunk
    | reset => rfl
    | on event handler =>
      rcases channel.serve_on_cases event handler with ⟨-, -, hserve⟩ | ⟨next, -, hserve, rfl⟩
      · rw [hserve]
      · rw [hserve]
        rfl
  observe channel other request hown hsame := by
    cases request with
    | send event record =>
      obtain ⟨hresult, hwritten, -⟩ := send_of_outbound_eq hsame event record
      rw [observe, observe, hresult, hwritten]
    | _ => exact nomatch hown
  serve channel other request hown hsame := by
    cases request with
    | send event record => exact (send_of_outbound_eq hsame event record).2.2
    | _ => exact nomatch hown

/-- **The receiving direction** depends on all requests but sends. -/
theorem apart_inbound : Apart (!·.isSend) (inbound : Channel α β → Inbound β) where
  leaves channel request hother := by
    cases request with
    | send event record => exact inbound_send channel event record
    | _ => exact nomatch hother
  observe channel other request hown hsame := by
    cases request with
    | send event record => exact nomatch hown
    | on event handler =>
      obtain ⟨hresult, -⟩ := on_of_inbound_eq hsame event handler
      rw [observe, observe, hresult]
    | receive chunk =>
      obtain ⟨hresult, hlater⟩ := receive_of_inbound_eq hsame chunk
      have hreceipts := receipts_of_inbound_eq hsame chunk
      have hframer := congrArg Inbound.framer hlater
      simp only [inbound] at hframer
      rw [observe, observe, hresult, hreceipts, hframer]
    | reset =>
      have hframer := congrArg Inbound.framer hsame
      simp only [inbound] at hframer
      rw [observe, observe, reset, reset, hframer]
  serve channel other request hown hsame := by
    cases request with
    | send event record => exact nomatch hown
    | on event handler => exact (on_of_inbound_eq hsame event handler).2
    | receive chunk => exact (receive_of_inbound_eq hsame chunk).2
    | reset =>
      obtain ⟨hframer, hconsumer, hinbox, hhandlers, hschema⟩ := Inbound.mk.inj hsame
      simp [Channel.serve, reset, inbound, hframer, hconsumer, hinbox, hhandlers, hschema]

/-- **The directions do not interfere.** Whatever a channel is asked, in any
order: its sends are answered as if they were all that it is asked, with the
same bytes handed to the sink, and so is all the rest, with the same records
and rejections handed over, the same bytes pending and the framer halted or
not. Every record that is sent, before or after the framer has halted, is
handed to the sink once if it can be encoded and not at all if it cannot, and
leaves the receiving direction as it is, also if the sink fails. -/
theorem directions_apart (channel : Channel α β) (requests : List (Request β)) :
    let sends := requests.filter (·.isSend)
    let others := requests.filter (!·.isSend)
    let after := channel.serveAll requests
    ((channel.transcript requests).filter (·.1.isSend) = channel.transcript sends ∧
        after.outbound = (channel.serveAll sends).outbound) ∧
      ((channel.transcript requests).filter (!·.1.isSend) = channel.transcript others ∧
        after.inbound = (channel.serveAll others).inbound) ∧
      ∀ event record, after.SendsOnce event record := by
  intro sends others after
  refine ⟨apart_outbound.transcript rfl requests, apart_inbound.transcript rfl requests, ?_⟩
  intro event record
  exact sendsOnce after event record

end Channel

end EventWire
