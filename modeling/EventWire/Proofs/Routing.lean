/-
EventWire.Proofs.Routing — a channel splits the stream that it receives.

The records of some events go to handlers, all others to the consumer.
Handlers come and are replaced between chunks, also while a part of a record
is pending. Put together again in order of time, what handlers and consumer
are handed is what a bare framer hands to a single consumer
(`Channel.receive_splits`).

* `Receipt` — something that is handed over, and who is handed it.
* `Channel.receipts` — the receipts that a chunk leads to, in order of time.
  They are read off a channel where all note what they are handed, which
  changes nothing else (`Channel.receive_eq_noting`).
* `Channel.registered` — the handler that was registered last for an event,
  told from what the channel has been asked.
* `Consumer.StandsIn` — the consumer of the bare framer. It takes every record
  of an event that has a handler, and otherwise answers as the channel's own
  consumer does. If handlers and consumer have nothing to do with each other
  it can ignore the former (`standsIn_sparing`); if they share a state it does
  to that what the handlers do (`standsIn_route`).
-/
import EventWire.Channel
import EventWire.Proofs.Delivery
import EventWire.Proofs.PendingLimit

namespace EventWire

variable {α β γ : Type}

/-! ## Receipts -/

/-- Something that is handed over by a channel, and who is handed it. -/
inductive Receipt (β : Type) where
  /-- A handler of the event takes a record. -/
  | handled (event : String) (handler : Record → β → β) (record : Record)
  /-- The consumer is handed a record, or told of one that could not be
  decoded. -/
  | consumed (exchange : Exchange)

namespace Receipt

/-- What a consumer that takes the place of all would have seen of it. -/
def exchange : Receipt β → Exchange
  | .handled event _ record => ⟨.consume event record, none⟩
  | .consumed exchange => exchange

/-- It has come to the right one: a record to the handler of its event or, for
want of one, to the consumer, and a rejection to the consumer. -/
def IsDue (registered : String → Option (Record → β → β)) : Receipt β → Prop
  | .handled event handler _ => registered event = some handler
  | .consumed ⟨.consume event _, _⟩ => registered event = none
  | .consumed ⟨.reject _, _⟩ => True

end Receipt

/-- The same consumer, which notes what it is handed. -/
def Consumer.noting (consumer : Consumer β) : Consumer (List (Receipt β) × β) where
  consume event record state :=
    ((consumer.consume event record state.2).1,
      state.1 ++ [.consumed (.ofAnswer event record (consumer.consume event record state.2).1)],
      (consumer.consume event record state.2).2)
  reject error state :=
    (state.1 ++ [.consumed ⟨.reject error, none⟩], consumer.reject error state.2)

namespace Handlers

/-- The same handlers, which note what they are handed. -/
def noting (handlers : Handlers β) : Handlers (List (Receipt β) × β) :=
  handlers.map fun (event, handler) =>
    (event, fun record state =>
      (state.1 ++ [.handled event handler record], handler record state.2))

variable {handlers : Handlers β}

theorem find?_set (event : String) (handler : Record → β → β) (name : String) :
    (handlers.set event handler).find? name =
      if event = name then some handler else handlers.find? name := by
  unfold find? set
  by_cases hname : event = name
  · simp [hname]
  · have hother (entry : String × (Record → β → β)) :
        (!decide (entry.1 = event) && decide (entry.1 = name)) = decide (entry.1 = name) := by
      by_cases hentry : entry.1 = name
      · simp [hentry, Ne.symm hname]
      · simp [hentry]
    simp [hname, List.find?_filter, hother]

theorem find?_noting (event : String) :
    handlers.noting.find? event = (handlers.find? event).map fun handler record state =>
      (state.1 ++ [.handled event handler record], handler record state.2) := by
  unfold find? noting
  induction handlers with
  | nil => rfl
  | cons entry rest ih =>
    by_cases hentry : entry.1 = event
    · simp [hentry]
    · simpa [hentry] using ih

/-- To note what is handed over changes nothing else. -/
theorem hom_noting (handlers : Handlers β) (consumer : Consumer β) :
    Consumer.Hom Prod.snd (handlers.noting.route consumer.noting) (handlers.route consumer) where
  consume event record state := by
    simp only [route, find?_noting]
    cases handlers.find? event with
    | none => rfl
    | some handler => rfl
  reject _ _ := rfl

end Handlers

/-! ## A consumer in place of all -/

/-- `other` takes every record of an event that has a handler, and otherwise
answers as `consumer` does. -/
structure Consumer.StandsIn (Alike : β → γ → Prop)
    (registered : String → Option (Record → β → β)) (consumer : Consumer β)
    (other : Consumer γ) : Prop where
  handled : ∀ {event handler} record {inbox state}, registered event = some handler →
    Alike inbox state →
    (other.consume event record state).1 = .ok () ∧
      Alike (handler record inbox) (other.consume event record state).2
  consumed : ∀ {event} record {inbox state}, registered event = none → Alike inbox state →
    (other.consume event record state).1 = (consumer.consume event record inbox).1 ∧
      Alike (consumer.consume event record inbox).2 (other.consume event record state).2
  rejected : ∀ error {inbox state}, Alike inbox state →
    Alike (consumer.reject error inbox) (other.reject error state)

namespace Consumer

/-- The consumer, with something else beside its state. -/
def beside (consumer : Consumer γ) : Consumer (β × γ) where
  consume event record inbox :=
    ((consumer.consume event record inbox.2).1, inbox.1,
      (consumer.consume event record inbox.2).2)
  reject error inbox := (inbox.1, consumer.reject error inbox.2)

/-- The state of the consumer in an inbox. -/
def IsBeside (inbox : β × γ) (state : γ) : Prop := inbox.2 = state

/-- The consumer, which takes the records of some events without notice. -/
def sparing (consumer : Consumer γ) (spared : String → Bool) : Consumer γ where
  consume event record state :=
    if spared event then (.ok (), state) else consumer.consume event record state
  reject := consumer.reject

/-- Handlers that leave the consumer alone may be left out. -/
theorem standsIn_sparing {registered : String → Option (Record → β × γ → β × γ)}
    (consumer : Consumer γ)
    (hleave : ∀ event handler, registered event = some handler →
      ∀ record inbox, (handler record inbox).2 = inbox.2) :
    StandsIn IsBeside registered consumer.beside
      (consumer.sparing fun event => (registered event).isSome) where
  handled record inbox state hregistered halike := by
    simp only [sparing, hregistered, Option.isSome_some, if_true, true_and]
    exact (hleave _ _ hregistered record inbox).trans halike
  consumed record inbox state hnone halike := by
    cases halike
    simp [sparing, beside, hnone, IsBeside]
  rejected error inbox state halike := by
    cases halike
    rfl

/-- A stand-in can always be found: handlers and consumer together, with the
state that they share. -/
theorem standsIn_route (handlers : Handlers β) (consumer : Consumer β) :
    StandsIn Eq handlers.find? consumer (handlers.route consumer) where
  handled record inbox state hregistered halike := by
    subst halike
    simp [Handlers.route, hregistered]
  consumed record inbox state hnone halike := by
    subst halike
    simp [Handlers.route, hnone]
  rejected error inbox state halike := by
    subst halike
    rfl

end Consumer

/-- What has been noted, by all of a channel on the one side and by the consumer
in their place on the other, is the same. -/
structure Noted (Alike : β → γ → Prop) (registered : String → Option (Record → β → β))
    (noted : List (Receipt β) × β) (observed : List Exchange × γ) : Prop where
  merged : noted.1.map Receipt.exchange = observed.1
  due : ∀ receipt ∈ noted.1, receipt.IsDue registered
  alike : Alike noted.2 observed.2

/-- One more receipt. -/
theorem Noted.append {Alike : β → γ → Prop} {registered : String → Option (Record → β → β)}
    {noted : List (Receipt β) × β} {observed : List Exchange × γ}
    (h : Noted Alike registered noted observed) (receipt : Receipt β)
    (hdue : receipt.IsDue registered) {inbox : β} {state : γ} (halike : Alike inbox state) :
    Noted Alike registered (noted.1 ++ [receipt], inbox)
      (observed.1 ++ [receipt.exchange], state) where
  merged := by simp [h.merged]
  due other hother := by
    rcases List.mem_append.mp hother with hearlier | hlast
    · exact h.due other hearlier
    · obtain rfl := List.mem_singleton.mp hlast
      exact hdue
  alike := halike

/-- **One call**: whoever is handed something by the channel, the consumer that
stands in for all is handed the same, and gives the same answer. -/
theorem Consumer.StandsIn.simulates {Alike : β → γ → Prop} {handlers : Handlers β}
    {consumer : Consumer β} {other : Consumer γ}
    (h : StandsIn Alike handlers.find? consumer other) :
    (handlers.noting.route consumer.noting).Simulates (Noted Alike handlers.find?)
      other.observed where
  consume event record noted observed hnoted := by
    simp only [Handlers.route, Handlers.find?_noting]
    cases hregistered : handlers.find? event with
    | some handler =>
      obtain ⟨haccepted, halike⟩ := h.handled record hregistered hnoted.alike
      refine ⟨haccepted.symm, ?_⟩
      simp only [Option.map_some, Consumer.observed, haccepted]
      exact hnoted.append (.handled event handler record) hregistered halike
    | none =>
      obtain ⟨hanswer, halike⟩ := h.consumed record hregistered hnoted.alike
      refine ⟨hanswer.symm, ?_⟩
      simp only [Option.map_none, Consumer.noting, Consumer.observed, hanswer]
      exact hnoted.append (.consumed (.ofAnswer event record _)) hregistered halike
  reject error noted observed hnoted :=
    hnoted.append (.consumed ⟨.reject error, none⟩) trivial
      (h.rejected error hnoted.alike)

/-! ## One chunk -/

namespace Channel

/-- The same channel, where all note what they are handed. -/
def noting (channel : Channel α β) : Channel α (List (Receipt β) × β) :=
  { channel with
    consumer := channel.consumer.noting
    inbox := ([], channel.inbox)
    handlers := channel.handlers.noting }

/-- What is handed over in the course of a chunk, in order of time. -/
def receipts (channel : Channel α β) (chunk : Bytes) : List (Receipt β) :=
  (channel.noting.receive chunk).2.inbox.1

/-- What a chunk leads to does not depend on whether it is noted. -/
theorem receive_eq_noting (channel : Channel α β) (chunk : Bytes) :
    channel.receive chunk = ((channel.noting.receive chunk).1,
      { channel with
        framer := (channel.noting.receive chunk).2.framer
        registry := (channel.noting.receive chunk).2.registry
        inbox := (channel.noting.receive chunk).2.inbox.2 }) := by
  have hfed := Framer.feed_map (Handlers.hom_noting channel.handlers channel.consumer)
    channel.framer channel.registry chunk ([], channel.inbox)
  unfold receive
  rw [hfed]
  rfl

/-- A chunk leads to the same at a channel as in a turn of a bare framer, but
that what is handed over in the turn is handed to those to whom it is due. -/
structure Splits (channel : Channel α β) (chunk : Bytes)
    (registered : String → Option (Record → β → β)) (turn : Turn γ) : Prop where
  result : (channel.receive chunk).1 = turn.result
  merged : (channel.receipts chunk).map Receipt.exchange = turn.exchanges
  due : ∀ receipt ∈ channel.receipts chunk, receipt.IsDue registered
  framer : (channel.receive chunk).2.framer = turn.after

/-- A channel and a bare framer have come to the same place. -/
structure InStep (Alike : β → γ → Prop) (channel : Channel α β) (session : Session γ) : Prop where
  framer : channel.framer = session.framer
  sameSchema : channel.registry.schema = session.registry.schema
  alike : Alike channel.inbox session.state

variable {Alike : β → γ → Prop} {channel : Channel α β} {session : Session γ}

theorem InStep.noting (h : InStep Alike channel session) {other : Consumer γ}
    (hstands : channel.consumer.StandsIn Alike channel.handlers.find? other) (chunk : Bytes) :
    (channel.framer.feed (channel.handlers.noting.route channel.consumer.noting)
        channel.registry chunk ([], channel.inbox)).Matches (Noted Alike channel.handlers.find?)
      (session.framer.feed other.observed session.registry chunk ([], session.state)) := by
  rw [← h.framer]
  exact Framer.feed_matches hstands.simulates h.sameSchema channel.framer chunk
    (Noted.mk rfl (fun _ hmem => nomatch hmem) h.alike)

theorem InStep.splits (h : InStep Alike channel session) {other : Consumer γ}
    (hstands : channel.consumer.StandsIn Alike channel.handlers.find? other) (chunk : Bytes) :
    channel.Splits chunk channel.handlers.find?
      (session.framer.turn other session.registry chunk session.state) := by
  have hfed := h.noting hstands chunk
  constructor
  · rw [receive_eq_noting]
    exact hfed.result
  · exact hfed.state.merged
  · exact hfed.state.due
  · rw [receive_eq_noting]
    exact hfed.framer

/-- A chunk keeps them in step. -/
theorem InStep.receive (h : InStep Alike channel session) {other : Consumer γ}
    (hstands : channel.consumer.StandsIn Alike channel.handlers.find? other) (chunk : Bytes) :
    InStep Alike (channel.receive chunk).2 (session.serve (.feed ⟨other, chunk⟩)) := by
  have hfed := h.noting hstands chunk
  rw [receive_eq_noting, Session.serve, Framer.feed_eq_turn]
  exact ⟨hfed.framer, hfed.sameSchema, hfed.state.alike⟩

/-! ## What is asked of a channel -/

/-- What can be asked of a channel. -/
inductive Request (β : Type) where
  | on (event : String) (handler : Record → β → β)
  | send (event : String) (record : Record)
  | receive (chunk : Bytes)
  | reset

/-- The channel after a request. -/
def serve (channel : Channel α β) : Request β → Channel α β
  | .on event handler => (channel.on event handler).toOption.getD channel
  | .send event record => (channel.send event record).2
  | .receive chunk => (channel.receive chunk).2
  | .reset => channel.reset

/-- The channel after some requests, one after the other. -/
def serveAll (channel : Channel α β) (requests : List (Request β)) : Channel α β :=
  requests.foldl serve channel

/-- The handler that a request registers for an event, if it is not refused. -/
def registers? (channel : Channel α β) (event : String) : Request β → Option (Record → β → β)
  | .on name handler =>
    match channel.on name handler with
    | .ok _ => if name = event then some handler else none
    | .error _ => none
  | _ => none

/-- The handler that is registered last for an event in the course of some
requests. -/
def lastRegistered? (channel : Channel α β) (event : String) :
    List (Request β) → Option (Record → β → β)
  | [] => none
  | request :: later =>
    ((channel.serve request).lastRegistered? event later).or (channel.registers? event request)

/-- The handler that was registered last for an event after some requests, be
it before them. -/
def registered (channel : Channel α β) (requests : List (Request β)) (event : String) :
    Option (Record → β → β) :=
  (channel.lastRegistered? event requests).or (channel.handlers.find? event)

/-- A registration is refused, or changes the handlers and nothing else. -/
theorem serve_on_cases (channel : Channel α β) (name : String) (handler : Record → β → β) :
    (∃ error, channel.on name handler = .error error ∧
        channel.serve (.on name handler) = channel) ∨
      ∃ next, channel.on name handler = .ok next ∧ channel.serve (.on name handler) = next ∧
        next = { channel with handlers := channel.handlers.set name handler } := by
  cases hon : channel.on name handler with
  | error error =>
    refine .inl ⟨error, rfl, ?_⟩
    simp only [serve, hon]
    rfl
  | ok next =>
    refine .inr ⟨next, rfl, ?_, ?_⟩
    · simp only [serve, hon]
      rfl
    · unfold on at hon
      split at hon
      · exact nomatch hon
      · cases hon
        rfl

theorem find?_serve (channel : Channel α β) (request : Request β) (event : String) :
    (channel.serve request).handlers.find? event =
      (channel.registers? event request).or (channel.handlers.find? event) := by
  cases request with
  | on name handler =>
    rcases channel.serve_on_cases name handler with ⟨error, hon, hserve⟩ | ⟨next, hon, hserve, rfl⟩
    · rw [hserve]
      simp [registers?, hon]
    · rw [hserve, Handlers.find?_set]
      by_cases hname : name = event
      · subst hname
        simp [registers?, hon]
      · simp [registers?, hon, hname]
  | send name record =>
    unfold serve send
    dsimp only
    split <;> rfl
  | receive chunk => rfl
  | reset => rfl

theorem registered_cons (channel : Channel α β) (request : Request β)
    (requests : List (Request β)) :
    channel.registered (request :: requests) = (channel.serve request).registered requests := by
  funext event
  rw [registered, registered, lastRegistered?, find?_serve, Option.or_assoc]

/-- **The handlers of a channel** are those registered last. -/
theorem find?_serveAll (channel : Channel α β) (requests : List (Request β)) :
    (channel.serveAll requests).handlers.find? = channel.registered requests := by
  induction requests generalizing channel with
  | nil => rfl
  | cons request requests ih =>
    rw [registered_cons]
    exact ih (channel.serve request)

/-- No request changes the consumer. -/
theorem consumer_serve (channel : Channel α β) (request : Request β) :
    (channel.serve request).consumer = channel.consumer := by
  cases request with
  | on name handler =>
    rcases channel.serve_on_cases name handler with ⟨-, -, hserve⟩ | ⟨next, -, hserve, rfl⟩
    · rw [hserve]
    · rw [hserve]
  | send name record =>
    unfold serve send
    dsimp only
    split <;> rfl
  | receive chunk => rfl
  | reset => rfl

theorem consumer_serveAll (channel : Channel α β) (requests : List (Request β)) :
    (channel.serveAll requests).consumer = channel.consumer := by
  induction requests generalizing channel with
  | nil => rfl
  | cons request requests ih => exact (ih (channel.serve request)).trans (consumer_serve ..)

/-- A handler that was registered comes from a request. -/
theorem mem_of_lastRegistered? {channel : Channel α β} {requests : List (Request β)}
    {event : String} {handler : Record → β → β}
    (h : channel.lastRegistered? event requests = some handler) :
    .on event handler ∈ requests := by
  induction requests generalizing channel with
  | nil => exact nomatch h
  | cons request requests ih =>
    rcases Option.or_eq_some_iff.mp h with hlater | ⟨-, hfirst⟩
    · exact List.mem_cons_of_mem _ (ih hlater)
    · cases request with
      | on name other =>
        unfold registers? at hfirst
        dsimp only at hfirst
        split at hfirst
        · split at hfirst
          · rename_i hname
            cases hfirst
            subst hname
            exact List.mem_cons_self
          · exact nomatch hfirst
        · exact nomatch hfirst
      | _ => exact nomatch hfirst

/-! ## The bare framer -/

/-- What a request asks of a framer, with a consumer in place of all that the
channel has. -/
def Request.ofFramer (consumer : Consumer γ) : Request β → List (Session.Request γ)
  | .receive chunk => [.feed ⟨consumer, chunk⟩]
  | .reset => [.reset]
  | _ => []

/-- What some requests ask of a framer: the same chunks and resets. The
consumer depends on what came before. -/
def bareRequests (standIn : List (Request β) → Consumer γ) :
    List (Request β) → List (Session.Request γ)
  | [] => []
  | request :: later =>
    request.ofFramer (standIn []) ++
      bareRequests (fun earlier => standIn (request :: earlier)) later

/-- The bare framer as the channel begins: at the same place of the stream, over
the same registry. -/
def bare (channel : Channel α β) (state : γ) : Session γ :=
  ⟨channel.framer, channel.registry, state⟩

/-- One request keeps channel and framer in step. -/
theorem InStep.serve (h : InStep Alike channel session) {other : Consumer γ}
    (hstands : channel.consumer.StandsIn Alike channel.handlers.find? other)
    (request : Request β) :
    InStep Alike (channel.serve request) (session.serveAll (request.ofFramer other)) := by
  cases request with
  | on name handler =>
    rcases channel.serve_on_cases name handler with ⟨-, -, hserve⟩ | ⟨next, -, hserve, rfl⟩
    · rw [hserve]
      exact h
    · rw [hserve]
      exact ⟨h.framer, h.sameSchema, h.alike⟩
  | send name record =>
    have hschema := Registry.schema_encode channel.registry name record
    unfold Channel.serve send
    dsimp only
    split <;> exact ⟨h.framer, hschema.trans h.sameSchema, h.alike⟩
  | receive chunk => exact h.receive hstands chunk
  | reset => exact ⟨congrArg Framer.reset h.framer, h.sameSchema, h.alike⟩

/-- **Any requests** keep them in step. -/
theorem InStep.serveAll (h : InStep Alike channel session) {requests : List (Request β)}
    {standIn : List (Request β) → Consumer γ}
    (hstands : ∀ earlier, earlier <+: requests →
      channel.consumer.StandsIn Alike (channel.registered earlier) (standIn earlier)) :
    InStep Alike (channel.serveAll requests)
      (session.serveAll (bareRequests standIn requests)) := by
  induction requests generalizing channel session standIn with
  | nil => exact h
  | cons request requests ih =>
    have hfirst := h.serve (hstands [] List.nil_prefix) request
    rw [bareRequests, Session.serveAll, List.foldl_append]
    refine ih hfirst ?_
    intro earlier hearlier
    rw [consumer_serve, ← registered_cons]
    exact hstands (request :: earlier) ((List.prefix_cons_inj request).mpr hearlier)

/-- **A channel is a faithful split of the framed stream.** After any requests,
refused and repeated registrations and resets among them, a chunk is answered
as by a bare framer that was given the same chunks and resets, each with a
consumer that takes the records of events that have a handler by then and
otherwise answers as the channel's own. What is handed over is what the bare
framer hands over, in the same order; and each of it is handed to the one
receiver to whom it is due: the handler registered last for the record's event,
or the consumer if there is none or if it is a rejection. -/
theorem receive_splits {start : Channel α β} {state : γ} {requests : List (Request β)}
    {standIn : List (Request β) → Consumer γ} (hstart : Alike start.inbox state)
    (hstands : ∀ earlier, earlier <+: requests →
      start.consumer.StandsIn Alike (start.registered earlier) (standIn earlier))
    (chunk : Bytes) :
    let session := (start.bare state).serveAll (bareRequests standIn requests)
    (start.serveAll requests).Splits chunk (start.registered requests)
      (session.framer.turn (standIn requests) session.registry chunk session.state) := by
  intro session
  have hbegin : InStep Alike start (start.bare state) := ⟨rfl, rfl, hstart⟩
  have hstep : InStep Alike (start.serveAll requests) session := hbegin.serveAll hstands
  have hlast := hstands requests List.prefix_rfl
  rw [← find?_serveAll] at hlast ⊢
  rw [← consumer_serveAll start requests] at hlast
  exact hstep.splits hlast chunk

/-- The handler that keeps records behind those that it has, and leaves what is
beside them alone. -/
def keepLast (record : Record) (inbox : List Record × γ) : List Record × γ :=
  (inbox.1 ++ [record], inbox.2)

/-- The handler that keeps records before those that it has. -/
def keepFirst (record : Record) (inbox : List Record × γ) : List Record × γ :=
  (record :: inbox.1, inbox.2)

/-- A channel whose consumer refuses its first record. -/
def talkChannel : Channel Bytes (List Record × List (Except CodecError Unit)) where
  registry := Registry.talkReceiver
  sink := .stream
  outbox := []
  consumer := Consumer.scripted.beside
  inbox := ([], [.error (.sinkClosed "full")])

/-- The handler is replaced in the middle of a record. Another one, for an event
that is not defined, is refused. -/
def talkRequests : List (Request (List Record × List (Except CodecError Unit))) :=
  [.on "chat" keepLast, .on "shout" keepLast,
    .receive (Registry.talkEncodings.flatten.take 9), .on "chat" keepFirst]

theorem receive_splits_talk :
    let standIn := fun earlier => Consumer.scripted.sparing fun event =>
      (talkChannel.registered earlier event).isSome
    let session := (talkChannel.bare talkChannel.inbox.2).serveAll
      (bareRequests standIn talkRequests)
    let chunk := Registry.talkEncodings.flatten.drop 9
    (talkChannel.serveAll talkRequests).Splits chunk (talkChannel.registered talkRequests)
        (session.framer.turn (standIn talkRequests) session.registry chunk session.state) ∧
      (talkChannel.serveAll talkRequests).receipts chunk =
        [.handled "chat" keepFirst
            (.ofList [("at", .scalar (.int16 (-2))), ("text", .string "é")]),
          .consumed ⟨.consume "say" (.ofList [("text", .string "hi")]),
            some (.sinkClosed "full")⟩] := by
  have hstart : Consumer.IsBeside talkChannel.inbox talkChannel.inbox.2 := rfl
  refine ⟨receive_splits hstart ?_ _, ?_⟩
  · intro earlier hearlier
    refine Consumer.standsIn_sparing Consumer.scripted ?_
    intro event handler hregistered record inbox
    rw [registered, Option.or_eq_some_iff] at hregistered
    rcases hregistered with hlast | ⟨-, hbefore⟩
    · have hmem := hearlier.subset (mem_of_lastRegistered? hlast)
      simp only [talkRequests, List.mem_cons, Request.on.injEq, List.not_mem_nil] at hmem
      rcases hmem with ⟨-, rfl⟩ | ⟨-, rfl⟩ | h | ⟨-, rfl⟩ | h
      · rfl
      · rfl
      · exact nomatch h
      · rfl
      · exact nomatch h
    · exact nomatch hbefore
  · cbv

end Channel

end EventWire
