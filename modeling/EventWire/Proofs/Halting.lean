/-
EventWire.Proofs.Halting — when a framer has halted, and what ends it.

A fatal error may come from an id that no event has, from a length that cannot
be, from the limit or from the consumer. Wherever it comes from, the framer
keeps the first one that it answers with. From then on all chunks are answered
with its message and nothing else happens, until a reset. A reset leaves
nothing behind but the settings (`Journal.halts_until_reset`).

* `Turn.fatal?` — the fatal error that a chunk is answered with. That a framer
  keeps it, and keeps the one that it has, is the step (`Turn.Obeys.halted`).
* `Framer.Past` — the turns that a framer has been through since it was new,
  with no turn left out. Whether it has halted, and where it stands in the
  stream, is told from them (`Past.halted`, `Past.counted`).
* `Journal` — a session that keeps the turns since it was opened or reset.
-/
import EventWire.Proofs.PendingLimit

namespace EventWire

variable {σ : Type} {schema : Schema}

/-! ## Fatal answers -/

namespace Turn

variable {turn : Turn σ}

/-- The fatal error that a turn ended with. -/
def fatal? (turn : Turn σ) : Option CodecError :=
  match turn.result with
  | .error error => if error.isFatal then some error else none
  | .ok _ => none

def firstFatal? (turns : List (Turn σ)) : Option CodecError := turns.findSome? fatal?

theorem fatal?_eq_some_iff {error : CodecError} :
    turn.fatal? = some error ↔ turn.result = .error error ∧ error.isFatal := by
  unfold fatal?
  cases turn.result with
  | ok count => simp
  | error other =>
    simp only [Option.ite_none_right_eq_some, Option.some.injEq, Except.error.injEq]
    constructor
    · rintro ⟨hfatal, rfl⟩
      exact ⟨rfl, hfatal⟩
    · rintro ⟨rfl, hfatal⟩
      exact ⟨hfatal, rfl⟩

theorem fatal?_of_ok {count : Nat} (h : turn.result = .ok count) : turn.fatal? = none := by
  simp [fatal?, h]

theorem fatal?_of_error {error : CodecError} (h : turn.result = .error error) :
    turn.fatal? = if error.isFatal then some error else none := by
  simp [fatal?, h]

theorem firstFatal?_append (turns later : List (Turn σ)) :
    firstFatal? (turns ++ later) = (firstFatal? turns).or (firstFatal? later) :=
  List.findSome?_append

theorem firstFatal?_eq_none_iff {turns : List (Turn σ)} :
    firstFatal? turns = none ↔ ∀ turn ∈ turns, turn.fatal? = none :=
  List.findSome?_eq_none_iff

/-- **The first fatal answer is kept**, whatever it is that has led to it. -/
theorem Obeys.halted (h : turn.Obeys schema) :
    turn.after.halted = turn.before.halted.or turn.fatal? := by
  cases h with
  | ignored hhalted _ _ hafter => rw [hafter, hhalted, Option.some_or]
  | read hreading _ _ hends =>
    rw [hreading, Option.none_or]
    cases hends with
    | waiting _ _ _ hhalted hresult => rw [hhalted, fatal?_of_ok hresult]
    | overflow _ _ hlimit hhalted hresult =>
      obtain ⟨limit, -, -, rfl⟩ := Framer.eq_of_overflow? hlimit
      rw [hhalted, fatal?_of_error hresult]
      rfl
    | unreadable _ hframe hhalted hresult =>
      rw [hhalted, fatal?_of_error hresult, if_pos (Schema.isFatal_of_nextFrame hframe)]
    | refused _ _ _ hhalted hresult => rw [hhalted, fatal?_of_error hresult]

/-- A framer that has halted ignores what it is fed. -/
theorem Obeys.of_halted (h : turn.Obeys schema) {cause : CodecError}
    (hhalted : turn.before.halted = some cause) :
    turn.result = .error (.framingHalted cause.message) ∧ turn.exchanges = [] ∧
      turn.after = turn.before := by
  cases h with
  | ignored hbefore hexchanges hresult hafter =>
    obtain rfl := Option.some.inj (hbefore.symm.trans hhalted)
    exact ⟨hresult, hexchanges, hafter⟩
  | read hreading _ _ _ =>
    rw [hreading] at hhalted
    exact nomatch hhalted

end Turn

/-- A walk loses no byte: it has passed those before its end, and the others are
left. -/
theorem Schema.Reads.stop_add_length {offset stop : Nat} {data rest : Bytes} {calls : List Call}
    (h : schema.Reads offset data calls stop rest) :
    stop + rest.length = offset + data.length := by
  induction h with
  | stay => rfl
  | pass hframe _ ih =>
    have hsize := (Schema.nextFrame_whole hframe).2
    rw [List.length_drop] at ih
    omega

/-! ## What a framer has been through -/

namespace Framer

/-- The turns of a framer since it was new, each of which took up where the one
before had left off. -/
inductive Past (schema : Schema) : List (Turn σ) → Framer → Prop
  | new (settings : FramerSettings) : Past schema [] { settings }
  | turn {turns : List (Turn σ)} {turn : Turn σ} (hearlier : Past schema turns turn.before)
      (hobeys : turn.Obeys schema) : Past schema (turns ++ [turn]) turn.after

namespace Past

variable {turns earlier later : List (Turn σ)} {framer : Framer} {turn : Turn σ}

/-- **A framer has halted** with the first fatal error that it answered with,
if there is any. -/
theorem halted (h : Past schema turns framer) : framer.halted = Turn.firstFatal? turns := by
  induction h with
  | new settings => rfl
  | @turn turns turn hearlier hobeys ih =>
    rw [hobeys.halted, ih, Turn.firstFatal?_append]
    simp [Turn.firstFatal?]

/-- It stands where its walk along the stream has led. -/
theorem reads (h : Past schema turns framer) :
    schema.Reads 0 (turns.flatMap Turn.heard) (turns.flatMap Turn.calls) framer.offset
      framer.pending := by
  induction h with
  | new settings => exact .stay ..
  | turn hearlier hobeys ih => simpa using hobeys.reads ih

/-- What came before one of the turns is a past of its own. -/
theorem of_append (h : Past schema (earlier ++ turn :: later) framer) :
    Past schema earlier turn.before ∧ turn.Obeys schema := by
  generalize hturns : earlier ++ turn :: later = turns at h
  -- The last turn is the one in question, or one of those after it.
  induction h generalizing later with
  | new settings => exact absurd hturns (by simp)
  | @turn turns last hearlier hobeys ih =>
    rcases List.eq_nil_or_concat later with rfl | ⟨between, final, rfl⟩
    · obtain ⟨rfl, hlast⟩ := List.append_inj' hturns rfl
      obtain rfl := List.singleton_inj.mp hlast
      exact ⟨hearlier, hobeys⟩
    · have hinit : (earlier ++ turn :: between) ++ [final] = turns ++ [last] := by
        simpa using hturns
      exact ih (List.append_inj' hinit rfl).1

/-- The bytes heard up to a turn are those before its place in the stream, and
those pending. -/
theorem counted (h : Past schema (earlier ++ turn :: later) framer) :
    turn.after.offset + turn.after.pending.length =
      ((earlier ++ [turn]).flatMap Turn.heard).length := by
  obtain ⟨hearlier, hobeys⟩ := h.of_append
  have hlength := (Past.turn hearlier hobeys).reads.stop_add_length
  rwa [Nat.zero_add] at hlength

/-- The place of an id that no event has, if it was not the consumer that said
so, is counted from where the stream began. -/
theorem unknownPacket (h : Past schema (earlier ++ turn :: later) framer) {id : UInt32}
    {offset : Nat} (hresult : turn.result = .error (.unknownPacket id offset))
    (hnone : turn.refusals = []) :
    offset + turn.after.pending.length = ((earlier ++ [turn]).flatMap Turn.heard).length := by
  have hframe := h.of_append.2.unreadable hresult hnone (by simp) (by simp)
  rcases Schema.decodeFirst_of_unreadable hframe with ⟨_, herror, -⟩ | ⟨_, _, _, herror, -⟩
  · cases herror
    exact h.counted
  · exact nomatch herror

/-- All turns after the first fatal answer are ignored. -/
theorem ignores {error : CodecError} (h : Past schema (earlier ++ turn :: later) framer)
    (hfatal : Turn.firstFatal? earlier = some error) :
    turn.result = .error (.framingHalted error.message) ∧ turn.exchanges = [] ∧
      turn.after = turn.before := by
  obtain ⟨hearlier, hobeys⟩ := h.of_append
  exact hobeys.of_halted (hearlier.halted.trans hfatal)

end Past

end Framer

/-! ## Sessions that cannot be told apart -/

/-- Two turns have led to the same, but for what the registries remember. -/
structure Turn.Matches (turn other : Turn σ) : Prop where
  result : turn.result = other.result
  exchanges : turn.exchanges = other.exchanges
  after : turn.after = other.after
  state : turn.state = other.state

/-- Two sessions are the same, but for what the registries remember. -/
structure Session.Matches (session other : Session σ) : Prop where
  framer : session.framer = other.framer
  state : session.state = other.state
  sameSchema : session.registry.schema = other.registry.schema

namespace Session

variable {session other : Session σ}

def turn (session : Session σ) (feeding : Feeding σ) : Turn σ :=
  session.framer.turn feeding.consumer session.registry feeding.chunk session.state

theorem serve_feed (session : Session σ) (feeding : Feeding σ) :
    session.serve (.feed feeding) =
      ⟨(session.turn feeding).after, (session.turn feeding).registry,
        (session.turn feeding).state⟩ := by
  rw [serve, Framer.feed_eq_turn]
  rfl

theorem schema_serve (session : Session σ) (request : Request σ) :
    (session.serve request).registry.schema = session.registry.schema := by
  cases request with
  | reset => rfl
  | feed feeding =>
    rw [serve_feed]
    exact Framer.schema_turn ..

theorem Matches.fed (h : session.Matches other) (feeding : Feeding σ) :
    (session.framer.feed feeding.consumer.observed session.registry feeding.chunk
      ([], session.state)).Matches Eq
        (other.framer.feed feeding.consumer.observed other.registry feeding.chunk
          ([], other.state)) := by
  rw [h.framer, h.state]
  exact Framer.feed_of_schema_eq h.sameSchema ..

/-- **One chunk** does not tell them apart. -/
theorem Matches.turn (h : session.Matches other) (feeding : Feeding σ) :
    (session.turn feeding).Matches (other.turn feeding) where
  result := (h.fed feeding).result
  exchanges := congrArg Prod.fst (h.fed feeding).state
  after := (h.fed feeding).framer
  state := congrArg Prod.snd (h.fed feeding).state

theorem Matches.serve (h : session.Matches other) (request : Request σ) :
    (session.serve request).Matches (other.serve request) := by
  cases request with
  | reset => exact ⟨congrArg Framer.reset h.framer, h.state, h.sameSchema⟩
  | feed feeding =>
    have hturn := h.turn feeding
    rw [serve_feed, serve_feed]
    exact ⟨hturn.after, hturn.state, (h.fed feeding).sameSchema⟩

/-- Nor do any requests. -/
theorem Matches.serveAll (h : session.Matches other) (requests : List (Request σ)) :
    (session.serveAll requests).Matches (other.serveAll requests) := by
  induction requests generalizing session other with
  | nil => exact h
  | cons request requests ih => exact ih (h.serve request)

end Session

/-! ## A journal -/

/-- A session, with the turns since it was opened or reset. -/
structure Journal (σ : Type) where
  session : Session σ
  turns : List (Turn σ) := []

namespace Journal

def opened (settings : FramerSettings) (registry : Registry) (start : σ) : Journal σ where
  session := ⟨{ settings }, registry, start⟩

/-- The journal after a request. -/
def serve (journal : Journal σ) (request : Session.Request σ) : Journal σ where
  session := journal.session.serve request
  turns :=
    match request with
    | .feed feeding => journal.turns ++ [journal.session.turn feeding]
    | .reset => []

/-- The journal after some requests, one after the other. -/
def serveAll (journal : Journal σ) (requests : List (Session.Request σ)) : Journal σ :=
  requests.foldl serve journal

/-- The turns of the journal are what its framer has been through. -/
def Complete (schema : Schema) (journal : Journal σ) : Prop :=
  Framer.Past schema journal.turns journal.session.framer ∧
    journal.session.registry.schema = schema

variable {journal : Journal σ}

/-- **One request** is added to a complete journal. -/
theorem Complete.serve (h : journal.Complete schema) (request : Session.Request σ) :
    (journal.serve request).Complete schema := by
  obtain ⟨hpast, hschema⟩ := h
  refine ⟨?_, (Session.schema_serve ..).trans hschema⟩
  cases request with
  | reset => exact .new _
  | feed feeding =>
    have hobeys : (journal.session.turn feeding).Obeys schema := by
      rw [← hschema]
      exact Framer.turn_obeys ..
    have hlater : Framer.Past schema (journal.turns ++ [journal.session.turn feeding])
        (journal.session.turn feeding).after := .turn hpast hobeys
    simpa only [Journal.serve, Session.serve_feed] using hlater

theorem Complete.serveAll (h : journal.Complete schema) (requests : List (Session.Request σ)) :
    (journal.serveAll requests).Complete schema := by
  induction requests generalizing journal with
  | nil => exact h
  | cons request requests ih => exact ih (h.serve request)

theorem session_serveAll (journal : Journal σ) (requests : List (Session.Request σ)) :
    (journal.serveAll requests).session = journal.session.serveAll requests := by
  induction requests generalizing journal with
  | nil => rfl
  | cons request requests ih => exact ih (journal.serve request)

/-- The turns of a journal tell whether its framer has halted. -/
structure Halts (journal : Journal σ) : Prop where
  /-- It has if some chunk was answered with a fatal error, and only then. -/
  halted : journal.session.framer.isHalted ↔
    ∃ turn ∈ journal.turns, ∃ error, turn.result = .error error ∧ error.isFatal
  /-- After the first of these answers every chunk is answered with its message.
  No one is told of anything, and the framer stays as it is. -/
  ignored : ∀ earlier first error between next rest,
    journal.turns = earlier ++ first :: between ++ next :: rest →
    (∀ turn ∈ earlier, turn.fatal? = none) → first.result = .error error → error.isFatal →
      next.result = .error (.framingHalted error.message) ∧ next.exchanges = [] ∧
        next.after = next.before
  /-- Places are counted from the first byte of these turns. -/
  counted : ∀ earlier turn later id offset, journal.turns = earlier ++ turn :: later →
    turn.result = .error (.unknownPacket id offset) → turn.refusals = [] →
      offset + turn.after.pending.length = ((earlier ++ [turn]).flatMap Turn.heard).length

theorem Complete.halts (h : journal.Complete schema) : journal.Halts where
  halted := by
    rw [Framer.isHalted, h.1.halted, Turn.firstFatal?, List.findSome?_isSome_iff]
    simp only [Option.isSome_iff_exists, Turn.fatal?_eq_some_iff]
  ignored earlier first error between next rest hturns hnone hresult hfatal := by
    have hpast := h.1
    rw [hturns] at hpast
    refine hpast.ignores ?_
    have hfirst : first.fatal? = some error := Turn.fatal?_eq_some_iff.mpr ⟨hresult, hfatal⟩
    rw [Turn.firstFatal?_append, Turn.firstFatal?_eq_none_iff.mpr hnone, Option.none_or,
      Turn.firstFatal?, List.findSome?_cons_of_isSome (by simp [hfirst]), hfirst]
  counted earlier turn later id offset hturns hresult hnone := by
    have hpast := h.1
    rw [hturns] at hpast
    exact hpast.unknownPacket hresult hnone

/-- **A framer halts until it is reset.** It is asked anything, with any limit
and any consumers. Whether it has halted depends on the turns since it was made
or reset, as `Halts` tells. A reset, at any time, makes it a new framer of the
same settings: however the two are used from then on, over any registries of the
same schema, they are the same, and so is all that comes of the next chunk. -/
theorem halts_until_reset (settings : FramerSettings) (registry : Registry) (start : σ)
    (requests : List (Session.Request σ)) :
    let journal := (opened settings registry start).serveAll requests
    journal.Halts ∧
      ∀ other : Registry, other.schema = registry.schema → ∀ later feeding,
        let again := (journal.session.serve .reset).serveAll later
        let new := Session.serveAll ⟨{ settings }, other, journal.session.state⟩ later
        again.Matches new ∧ (again.turn feeding).Matches (new.turn feeding) := by
  intro journal
  have hopened : (opened settings registry start).Complete registry.schema :=
    ⟨.new settings, rfl⟩
  have hcomplete : journal.Complete registry.schema := hopened.serveAll requests
  refine ⟨hcomplete.halts, ?_⟩
  intro other hother later feeding again new
  have hsettings : journal.session.framer.settings = settings := by
    rw [session_serveAll]
    exact Session.settings_serveAll ..
  have hreset : (journal.session.serve .reset).Matches
      ⟨{ settings }, other, journal.session.state⟩ := by
    refine ⟨?_, rfl, hcomplete.2.trans hother.symm⟩
    rw [Session.serve, Framer.reset, hsettings]
  exact ⟨hreset.serveAll later, (hreset.serveAll later).turn feeding⟩

/-- The stream holds an id that no event has at 21, and so it does when it is
sent again after a reset. -/
theorem halts_until_reset_hostile :
    let feeding : Feeding Unit := ⟨{ consume := fun _ _ _ => (.ok (), ()) }, Framer.hostileStream⟩
    let journal := (opened {} Framer.sayRegistry ()).serveAll [.feed feeding, .feed feeding]
    let again := journal.session.serve .reset
    let new : Session Unit := ⟨{}, Framer.sayRegistry.compileAll.2, ()⟩
    journal.turns.map Turn.result =
        [.error (.unknownPacket 9 21),
          .error (.framingHalted (CodecError.unknownPacket 9 21).message)] ∧
      journal.session.framer.isHalted ∧
      (again.turn feeding).Matches (new.turn feeding) ∧
      (new.turn feeding).result = .error (.unknownPacket 9 21) := by
  intro feeding journal again new
  have hother : Framer.sayRegistry.compileAll.2.schema = Framer.sayRegistry.schema := by simp
  obtain ⟨hhalts, hreset⟩ :=
    halts_until_reset {} Framer.sayRegistry () [.feed feeding, .feed feeding]
  let opening : Session Unit := ⟨{}, Framer.sayRegistry, ()⟩
  let first := opening.turn feeding
  let second := (opening.serve (.feed feeding)).turn feeding
  have hfirst : first.result = .error (.unknownPacket 9 21) := by cbv
  obtain ⟨hsecond, -⟩ := hhalts.ignored [] first _ [] second [] rfl (by simp) hfirst rfl
  refine ⟨?_, ?_, (hreset _ hother [] feeding).2, by cbv⟩
  · show [first.result, second.result] = _
    rw [hfirst, hsecond]
  · exact hhalts.halted.mpr ⟨first, .head _, _, hfirst, rfl⟩

end Journal

end EventWire
