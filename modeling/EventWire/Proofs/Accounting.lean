/-
EventWire.Proofs.Accounting — every byte a framer hears is accounted for.

A framer tells records apart by their headers and declared lengths, and the
one-shot decoder does so again on its own. Here the two are held against
each other: the bytes heard so far are one frame for each call made so far,
and what is pending (`Framer.turns_account`), and of each frame the decoder
says what the consumer was told (`Registry.Tells`).

* The decoder looks at a frame alone as it looks at the whole buffer
  (`Schema.decodeFirst_take`), since nothing it needs lies behind the frame.
* What it finds wrong with a whole record is wrong with the body
  (`Schema.isBodyError_of_nextFrame`).
* Where the framer can read no further, neither can the decoder; but it
  counts from the bytes it was given and not from the start of the stream
  (`Schema.decodeFirst_of_unreadable`).

No consumer changes this, whatever it refuses, and no limit: a refusal and an
overflow leave the bytes where they are.
-/
import EventWire.Proofs.Turns
import EventWire.Proofs.WireImage

namespace EventWire

variable {σ : Type}

/-! ## Errors in a body -/

/-- An error in the body of a record whose end is known. -/
def CodecError.isBodyError : CodecError → Bool
  | malformed .. | invalidUtf8 .. => true
  | _ => false

namespace Codec

variable {codec : Codec} {error : CodecError}

theorem isBodyError_of_readBlob {slot : DynamicSlot} {content : Bytes}
    (h : codec.readBlob slot content = .error error) : error.isBodyError := by
  unfold readBlob at h
  split at h
  · exact nomatch h
  · split at h
    · exact nomatch h
    · cases h
      rfl

theorem isBodyError_of_readDynamics {size : Nat} {slots : List DynamicSlot} {cursor : Nat}
    {rest : Bytes} {record : Record}
    (h : codec.readDynamics size slots cursor rest record = .error error) : error.isBodyError := by
  induction slots generalizing cursor rest record with
  | nil =>
    unfold readDynamics at h
    split at h
    · cases h
    · cases h
      rfl
  | cons slot slots ih =>
    unfold readDynamics at h
    split at h
    · dsimp only at h
      split at h
      · cases hblob : codec.readBlob slot
            ((rest.drop lengthWidth).take (BigEndian.decode (rest.take lengthWidth))) with
        | error found =>
          rw [hblob] at h
          cases h
          exact isBodyError_of_readBlob hblob
        | ok value =>
          rw [hblob] at h
          exact ih h
      · cases h
        rfl
    · cases h
      rfl

/-- What is wrong with a whole record is wrong with its body. -/
theorem isBodyError_of_decodeWhole {bytes : Bytes} (h : codec.decodeWhole bytes = .error error) :
    error.isBodyError :=
  isBodyError_of_readDynamics h

theorem nextFrame_eq_whole {data : Bytes} {event : String} {size : Nat}
    {body : Except CodecError Record} (h : codec.nextFrame data = .whole event size body) :
    event = codec.name ∧ codec.extent data = .known size ∧ size ≤ data.length ∧
      body = codec.decodeWhole (data.take size) := by
  unfold nextFrame at h
  split at h
  · exact nomatch h
  · exact nomatch h
  · rename_i known hextent
    split at h
    · rename_i hreach
      cases h
      exact ⟨rfl, hextent, Bytes.reaches_iff.mp hreach, rfl⟩
    · exact nomatch h

theorem nextFrame_eq_unreadable {data : Bytes} (h : codec.nextFrame data = .unreadable error) :
    codec.extent data = .refused error := by
  unfold nextFrame at h
  split at h
  · exact nomatch h
  · rename_i hextent
    cases h
    exact hextent
  · split at h <;> exact nomatch h

/-- A record's end is refused for the length that it declares. -/
theorem eq_invalidLength_of_extent {data : Bytes} (h : codec.extent data = .refused error) :
    ∃ event declared reason, error = .invalidLength event declared reason := by
  unfold extent at h
  split at h
  · exact nomatch h
  · split at h
    · split at h
      · exact nomatch h
      · rename_i refusal hlength
        cases h
        unfold Layout.recordLength at hlength
        split at hlength
        · cases hlength
          exact ⟨_, _, _, rfl⟩
        · exact nomatch hlength
    · exact nomatch h

/-- The end of a record is known from the record itself. -/
theorem extent_take {data : Bytes} {size : Nat} (h : codec.extent data = .known size)
    (hsize : size ≤ data.length) : codec.extent (data.take size) = .known size := by
  have hdynamic := dynamicOffset_le_of_extent h
  rw [Layout.dynamicOffset] at hdynamic
  rw [extent_eq_known_iff] at h ⊢
  split
  · rename_i hfixed
    rwa [if_pos hfixed] at h
  · rename_i hvaries
    rw [if_neg hvaries] at h
    have hoffset : codec.layout.staticOffset = codec.layout.headerWidth + lengthWidth := by
      rw [Layout.staticOffset, if_neg hvaries]
    have hlength : (data.take size).length = size := List.length_take_of_le hsize
    have hdeclared : codec.declared (data.take size) = codec.declared data := by
      conv_rhs => rw [← List.take_append_drop size data]
      exact (declared_append (by omega) _).symm
    rw [hlength, hdeclared]
    exact ⟨by omega, h.2⟩

end Codec

/-! ## The decoder at a frame -/

theorem Header.read?_take {data : Bytes} {header : Header} (h : read? data = some header)
    {size : Nat} (hsize : header.form.width ≤ size) : read? (data.take size) = some header := by
  cases data with
  | nil => cases h
  | cons first rest =>
    cases size with
    | zero => exact absurd hsize (Nat.not_le.mpr header.form.width_pos)
    | succ size =>
      simp only [read?, List.take_succ_cons] at h ⊢
      split
      · rename_i hmarker
        rw [if_pos hmarker] at h
        split at h
        · rename_i hreach
          cases h
          have hfour : 4 ≤ size := Nat.le_of_succ_le_succ hsize
          have hreach' : Bytes.reaches (rest.take size) 4 := by
            rw [Bytes.reaches_iff] at hreach ⊢
            rw [List.length_take]
            omega
          rw [if_pos hreach', List.take_take, Nat.min_eq_left hfour]
        · cases h
      · rename_i hcompact
        rwa [if_neg hcompact] at h

namespace Schema

variable {schema : Schema} {offset size : Nat} {data : Bytes} {event : String}
  {body : Except CodecError Record}

/-- An event is called for by a header in the event's own form. -/
theorem form_of_resolveHeader {header : Header} {found : Event} {codec : Codec}
    (h : schema.resolveHeader header = some (found, codec)) :
    codec = schema.codec found ∧ codec.layout.form = header.form := by
  unfold resolveHeader at h
  split at h
  · rename_i hcanonical
    obtain ⟨-, hid, rfl⟩ := resolve_eq_some h
    have hid : found.id = header.id := by simpa using hid
    have hform : header.form = .ofId header.id := by simpa [Header.isCanonical] using hcanonical
    exact ⟨rfl, by rw [hform, ← hid]; rfl⟩
  · exact nomatch h

theorem nextFrame_eq_whole (h : schema.nextFrame offset data = .whole event size body) :
    ∃ header found codec, Header.read? data = some header ∧
      schema.resolveHeader header = some (found, codec) ∧
      codec.nextFrame data = .whole event size body := by
  unfold nextFrame at h
  split at h
  · exact nomatch h
  · rename_i header hread
    split at h
    · exact nomatch h
    · rename_i found codec hresolve
      exact ⟨header, found, codec, hread, hresolve, h⟩

/-- **The decoder sees a frame as the framer does**, given its bytes alone. -/
theorem decodeFirst_take (h : schema.nextFrame offset data = .whole event size body) :
    ∃ found : Event, found.name = event ∧
      schema.decodeFirst (data.take size) = body.map fun record => ⟨found, record, size⟩ := by
  obtain ⟨header, found, codec, hread, hresolve, hframe⟩ := nextFrame_eq_whole h
  obtain ⟨hname, hextent, hsize, rfl⟩ := Codec.nextFrame_eq_whole hframe
  obtain ⟨hcodec, hform⟩ := form_of_resolveHeader hresolve
  have hwidth : header.form.width ≤ size := by
    rw [← hform]
    exact Codec.headerWidth_le_of_extent hextent
  refine ⟨found, by rw [hname, hcodec]; rfl, ?_⟩
  have hreach : Bytes.reaches (data.take size) size := by
    rw [Bytes.reaches_iff, List.length_take_of_le hsize]
  unfold decodeFirst
  rw [Header.read?_take hread hwidth]
  simp only [hresolve]
  unfold Codec.decode
  rw [Codec.extent_take hextent hsize]
  simp only [hreach, if_true, List.take_take, Nat.min_self]
  cases codec.decodeWhole (data.take size) <;> rfl

theorem isBodyError_of_nextFrame {error : CodecError}
    (h : schema.nextFrame offset data = .whole event size (.error error)) :
    error.isBodyError := by
  obtain ⟨-, -, codec, -, -, hframe⟩ := nextFrame_eq_whole h
  obtain ⟨-, -, -, hbody⟩ := Codec.nextFrame_eq_whole hframe
  exact Codec.isBodyError_of_decodeWhole hbody.symm

/-- The error with which reading stops, as the decoder sees it: it counts from
the bytes that it is given. -/
theorem decodeFirst_of_unreadable {error : CodecError}
    (h : schema.nextFrame offset data = .unreadable error) :
    (∃ id, error = .unknownPacket id offset ∧
        schema.decodeFirst data = .error (.unknownPacket id 0)) ∨
      (∃ event declared reason, error = .invalidLength event declared reason ∧
        schema.decodeFirst data = .error (.invalidLength event declared reason)) := by
  unfold nextFrame at h
  split at h
  · exact nomatch h
  · rename_i header hread
    split at h
    · rename_i hresolve
      cases h
      exact .inl ⟨header.id, rfl, by simp only [decodeFirst, hread, hresolve]⟩
    · rename_i found codec hresolve
      have hextent := Codec.nextFrame_eq_unreadable h
      obtain ⟨event, declared, reason, rfl⟩ := Codec.eq_invalidLength_of_extent hextent
      refine .inr ⟨event, declared, reason, rfl, ?_⟩
      simp only [decodeFirst, hread, hresolve, Codec.decode, hextent]
      rfl

end Schema

/-! ## Frames and calls -/

/-- What a consumer is told of a frame is what the one-shot decoder says of
it: the record that it holds, from its first byte to its last, or what is
wrong with its body. -/
def Registry.Tells (registry : Registry) (frame : Bytes) : Call → Prop
  | .consume name record => ∃ event : Event, event.name = name ∧
      (registry.decodeFirst frame).1 = .ok ⟨event, record, frame.length⟩
  | .reject error => (registry.decodeFirst frame).1 = .error error ∧ error.isBodyError

variable {registry : Registry}

theorem Registry.tells_ofBody {offset size : Nat} {data : Bytes} {event : String}
    {body : Except CodecError Record}
    (h : registry.schema.nextFrame offset data = .whole event size body) :
    registry.Tells (data.take size) (.ofBody event body) := by
  obtain ⟨found, hname, hdecode⟩ := Schema.decodeFirst_take h
  rw [← decodeFirst_fst] at hdecode
  cases body with
  | ok record =>
    refine ⟨found, hname, ?_⟩
    rw [hdecode, List.length_take_of_le (Schema.nextFrame_whole h).2]
    rfl
  | error error => exact ⟨hdecode, Schema.isBodyError_of_nextFrame h⟩

/-- The records that a walk passes are frames, of which the consumer is
told. -/
theorem Schema.Reads.frames {offset stop : Nat} {data rest : Bytes} {calls : List Call}
    (h : registry.schema.Reads offset data calls stop rest) :
    ∃ frames : List Bytes, data = frames.flatten ++ rest ∧
      stop = offset + frames.flatten.length ∧ List.Forall₂ registry.Tells frames calls := by
  induction h with
  | stay => exact ⟨[], by simp⟩
  | @pass offset stop data rest event size body calls hframe _ ih =>
    obtain ⟨frames, hdata, hstop, htells⟩ := ih
    have hsize := (Schema.nextFrame_whole hframe).2
    refine ⟨data.take size :: frames, ?_, ?_, .cons (Registry.tells_ofBody hframe) htells⟩
    · rw [List.flatten_cons, List.append_assoc, ← hdata, List.take_append_drop]
    · rw [List.flatten_cons, List.length_append, List.length_take_of_le hsize, hstop,
        Nat.add_assoc]

/-! ## The account of a run -/

/-- Some frames account for the calls made and the bytes heard in some turns,
the last of which is `last`. -/
structure Registry.Accounts (registry : Registry) (turns : List (Turn σ)) (last : Turn σ)
    (frames : List Bytes) : Prop where
  /-- No byte is lost, doubled or moved. -/
  bytes : turns.flatMap Turn.heard = frames.flatten ++ last.after.pending
  /-- Each call tells what is in the frame of its place. -/
  calls : List.Forall₂ registry.Tells frames (turns.flatMap Turn.calls)
  /-- The number that a chunk is answered with is that of the records handed
  over, and all of them were taken. -/
  counted : ∀ count, last.result = .ok count →
    last.calls.countP Call.isConsume = count ∧ last.refusals = []
  /-- An id that no event has, if it was not the consumer that said so, is the
  one at the front of what is pending. -/
  unknownPacket : ∀ id offset, last.result = .error (.unknownPacket id offset) →
    last.refusals = [] → offset = frames.flatten.length ∧
      (registry.decodeFirst last.after.pending).1 = .error (.unknownPacket id 0)
  /-- So is a length that is too small. -/
  invalidLength : ∀ event declared reason,
    last.result = .error (.invalidLength event declared reason) → last.refusals = [] →
      (registry.decodeFirst last.after.pending).1 = .error (.invalidLength event declared reason)

theorem Framer.eq_of_overflow? {framer : Framer} {error : CodecError}
    (h : framer.overflow? = some error) :
    ∃ limit, framer.settings.maxPending = some limit ∧ limit < framer.pending.length ∧
      error = .pendingOverflow framer.pending.length limit := by
  unfold overflow? at h
  split at h
  · exact nomatch h
  · rename_i limit hlimit
    split at h
    · rename_i hover
      cases h
      exact ⟨limit, hlimit, hover, rfl⟩
    · exact nomatch h

namespace Turn

variable {turn : Turn σ} {schema : Schema}

theorem Obeys.counted (h : turn.Obeys schema) {count : Nat} (hresult : turn.result = .ok count) :
    turn.calls.countP Call.isConsume = count ∧ turn.refusals = [] := by
  cases h with
  | ignored _ _ herror _ =>
    rw [herror] at hresult
    exact nomatch hresult
  | read _ _ _ hends =>
    cases hends with
    | waiting hnone _ _ _ hok =>
      rw [hok, Except.ok.injEq] at hresult
      exact ⟨by rw [← hresult, Exchange.countP_isTaken hnone]; rfl, hnone⟩
    | overflow _ _ _ _ herror | unreadable _ _ _ herror | refused _ _ _ _ herror =>
      rw [herror] at hresult
      exact nomatch hresult

/-- An error that comes neither from the consumer nor from the limit, and not
from an earlier halt, is what lies at the front of what is pending. -/
theorem Obeys.unreadable (h : turn.Obeys schema) {error : CodecError}
    (hresult : turn.result = .error error) (hnone : turn.refusals = [])
    (hhalted : ∀ cause, error ≠ .framingHalted cause)
    (hover : ∀ pending limit, error ≠ .pendingOverflow pending limit) :
    schema.nextFrame turn.after.offset turn.after.pending = .unreadable error := by
  cases h with
  | ignored _ _ herror _ =>
    rw [herror, Except.error.injEq] at hresult
    exact absurd hresult.symm (hhalted _)
  | read _ _ _ hends =>
    cases hends with
    | waiting _ _ _ _ hok =>
      rw [hok] at hresult
      exact nomatch hresult
    | overflow _ _ hlimit _ herror =>
      rw [herror, Except.error.injEq] at hresult
      obtain ⟨limit, -, -, hpending⟩ := Framer.eq_of_overflow? hlimit
      exact absurd (hresult.symm.trans hpending) (hover _ _)
    | unreadable _ hframe _ herror =>
      rw [herror, Except.error.injEq] at hresult
      rwa [← hresult]
    | refused earlier hearlier hlast _ _ =>
      rw [Turn.refusals_eq_singleton hearlier hlast] at hnone
      exact absurd hnone (List.cons_ne_nil _ _)

end Turn

namespace Framer

/-- **Every byte is accounted for.** Chunks are fed to a fresh framer one
after the other, with any limit, and with consumers that may refuse any
record with any error. After each of them the bytes heard so far, those of
all chunks that came before the framer halted, are one frame for each call
made so far, in order, and then what is pending; the decoder says of each
frame what the call told. A chunk that is answered with a count made as many
calls to consume, none of which was refused. An id without an event and a
length that is too small are found by the decoder too, at the front of what
is pending, but for the place of the former, which the framer counts from
the start of the stream. -/
theorem turns_account {settings : FramerSettings} {registry : Registry}
    {feedings : List (Feeding σ)} {start : σ} {earlier later : List (Turn σ)} {turn : Turn σ}
    (hturns : turns { settings } registry feedings start = earlier ++ turn :: later) :
    ∃ frames, registry.Accounts (earlier ++ [turn]) turn frames := by
  have hobeys : turn.Obeys registry.schema := obeys_of_mem_turns (by rw [hturns]; simp)
  have hreads := reads_turns (.stay 0 []) hturns
  obtain ⟨frames, hbytes, hoffset, htells⟩ := hreads.frames
  refine ⟨frames, ?_⟩
  rw [List.nil_append] at hbytes htells
  rw [Nat.zero_add] at hoffset
  refine ⟨hbytes, htells, fun count hresult => hobeys.counted hresult, ?_, ?_⟩
  · intro id offset hresult hnone
    have hframe := hobeys.unreadable hresult hnone (by simp) (by simp)
    rw [Registry.decodeFirst_fst]
    rcases Schema.decodeFirst_of_unreadable hframe with
      ⟨other, herror, hdecode⟩ | ⟨_, _, _, herror, _⟩
    · cases herror
      exact ⟨hoffset, hdecode⟩
    · exact nomatch herror
  · intro event declared reason hresult hnone
    have hframe := hobeys.unreadable hresult hnone (by simp) (by simp)
    rw [Registry.decodeFirst_fst]
    rcases Schema.decodeFirst_of_unreadable hframe with ⟨_, herror, _⟩ | ⟨_, _, _, herror, hdecode⟩
    · exact nomatch herror
    · cases herror
      exact hdecode

/-- The first record of `hostileStream` is refused, with more pending than the
limit allows; the rest comes with the second chunk. -/
theorem turns_account_hostile :
    let framer : Framer := { settings := { maxPending := some 2 } }
    let start := [.error (.sinkClosed "full")]
    let first := framer.turn .scripted sayRegistry (hostileStream.take 14) start
    let second := first.after.turn .scripted first.registry (hostileStream.drop 14) first.state
    framer.turns sayRegistry
        [⟨.scripted, hostileStream.take 14⟩, ⟨.scripted, hostileStream.drop 14⟩] start =
          [first] ++ second :: [] ∧
      first.result = .error (.sinkClosed "full") ∧
      second.result = .error (.unknownPacket 9 21) ∧
      ∃ frames, sayRegistry.Accounts [first, second] second frames := by
  intro framer start first second
  have hturns : framer.turns sayRegistry
      [⟨.scripted, hostileStream.take 14⟩, ⟨.scripted, hostileStream.drop 14⟩] start =
        [first] ++ second :: [] := rfl
  exact ⟨hturns, by cbv, by cbv, turns_account hturns⟩

end Framer

end EventWire
