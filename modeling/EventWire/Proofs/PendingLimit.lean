/-
EventWire.Proofs.PendingLimit — how many bytes may be waiting.

A framer with a limit checks it at the end of a chunk, and halts if more is
pending. That bounds what a peer can make it hold
(`Session.pending_le_or_refused`), for any chunks, resets and consumers, but
for one way out of a chunk: where a consumer has refused a record the chunk
is answered at once, and the limit is not looked at before the next one. A
peer whose records are refused is not held to it
(`Session.refusal_exceeds_limit`).

* `Session` — a framer at work, with the registry and the state of its
  consumers.
* `Session.serve` — chunks and resets, each chunk with a consumer of its own.
-/
import EventWire.Proofs.Refusals

namespace EventWire

variable {σ : Type}

/-- A framer at work. -/
structure Session (σ : Type) where
  framer : Framer
  registry : Registry
  state : σ

/-- What is asked of a framer. -/
inductive Session.Request (σ : Type) where
  | feed (feeding : Feeding σ)
  | reset

namespace Session

/-- The session after a request. -/
def serve (session : Session σ) : Request σ → Session σ
  | .feed feeding =>
    let fed := session.framer.feed feeding.consumer session.registry feeding.chunk session.state
    ⟨fed.framer, fed.registry, fed.state⟩
  | .reset => { session with framer := session.framer.reset }

/-- The session after some requests, one after the other. -/
def serveAll (session : Session σ) (requests : List (Request σ)) : Session σ :=
  requests.foldl serve session

/-- The errors with which records are refused during a request. -/
def refusals (session : Session σ) : Request σ → List CodecError
  | .feed feeding =>
    (session.framer.turn feeding.consumer session.registry feeding.chunk session.state).refusals
  | .reset => []

variable {session : Session σ}

theorem framer_serve_feed (feeding : Feeding σ) :
    (session.serve (.feed feeding)).framer =
      (session.framer.turn feeding.consumer session.registry feeding.chunk
        session.state).after := by
  rw [serve, Framer.feed_eq_turn]

theorem settings_serve (session : Session σ) (request : Request σ) :
    (session.serve request).framer.settings = session.framer.settings := by
  cases request with
  | reset => rfl
  | feed feeding =>
    rw [framer_serve_feed]
    cases Framer.turn_obeys session.framer feeding.consumer session.registry feeding.chunk
        session.state with
    | ignored _ _ _ hafter => rw [hafter, Framer.before_turn]
    | read _ hsettings _ _ => rw [hsettings, Framer.before_turn]

/-- No request changes the settings. -/
theorem settings_serveAll (session : Session σ) (requests : List (Request σ)) :
    (session.serveAll requests).framer.settings = session.framer.settings := by
  induction requests generalizing session with
  | nil => rfl
  | cons request requests ih => exact (ih (session.serve request)).trans (settings_serve ..)

end Session

/-- What is within the limit does not overflow. -/
theorem Framer.length_le_of_overflow? {framer : Framer} {limit : Nat}
    (hlimit : framer.settings.maxPending = some limit) (h : framer.overflow? = none) :
    framer.pending.length ≤ limit := by
  unfold overflow? at h
  rw [hlimit] at h
  dsimp only at h
  split at h
  · exact nomatch h
  · rename_i hwithin
    exact Nat.not_lt.mp hwithin

/-- A turn leaves no more pending than the limit allows, or the framer has
halted, or it ended with a refusal. -/
theorem Turn.Obeys.pending_le {turn : Turn σ} {schema : Schema} (h : turn.Obeys schema)
    {limit : Nat} (hlimit : turn.before.settings.maxPending = some limit) :
    turn.after.isHalted ∨ turn.after.pending.length ≤ limit ∨
      ∃ error, turn.refusals = [error] ∧ error.isFatal = false := by
  cases h with
  | ignored hhalted _ _ hafter => exact .inl (by rw [hafter, Framer.isHalted, hhalted]; rfl)
  | read _ hsettings _ hends =>
    cases hends with
    | waiting _ _ hwithin _ _ =>
      rw [← hsettings] at hlimit
      exact .inr (.inl (Framer.length_le_of_overflow? hlimit hwithin))
    | overflow _ _ _ hhalted _ | unreadable _ _ hhalted _ =>
      exact .inl (by rw [Framer.isHalted, hhalted]; rfl)
    | @refused earlier event record error hnone hlast hhalted _ =>
      cases hfatal : error.isFatal with
      | true =>
        rw [hfatal] at hhalted
        exact .inl (by rw [Framer.isHalted, hhalted]; rfl)
      | false =>
        exact .inr (.inr ⟨error, Turn.refusals_eq_singleton hnone hlast, hfatal⟩)

namespace Session

/-- **The limit holds unless a record is refused.** After any chunks and
resets, with any consumers, a framer with a limit has halted or has no more
pending than the limit allows; or the last request was a chunk in which the
consumer refused a record, with an error that is not a fatal one. -/
theorem pending_le_or_refused (limit : Nat) (registry : Registry) (start : σ)
    (requests : List (Request σ)) (last : Request σ) :
    let session := serveAll ⟨{ settings := { maxPending := some limit } }, registry, start⟩ requests
    (session.serve last).framer.isHalted ∨ (session.serve last).framer.pending.length ≤ limit ∨
      ∃ error, session.refusals last = [error] ∧ error.isFatal = false := by
  intro session
  have hsettings : session.framer.settings = { maxPending := some limit } :=
    settings_serveAll _ requests
  cases last with
  | reset => exact .inr (.inl (Nat.zero_le _))
  | feed feeding =>
    rw [framer_serve_feed]
    refine (Framer.turn_obeys ..).pending_le ?_
    rw [Framer.before_turn, hsettings]

/-- **A refusal exceeds the limit.** A record is refused, and behind it lies
the beginning of one that will not fit: more is pending than the limit allows,
and the framer has not halted. -/
theorem refusal_exceeds_limit :
    let fresh : Session _ := ⟨{ settings := { maxPending := some 2 } }, Framer.sayRegistry,
      [.error (.sinkClosed "full")]⟩
    let after := fresh.serveAll [.feed ⟨.scripted, Framer.hostileStream.take 14⟩]
    after.framer.isHalted = false ∧ after.framer.pending.length = 3 := by
  cbv

end Session

end EventWire
