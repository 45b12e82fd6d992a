/-
EventWire.Proofs.Progress — draining a buffer comes to an end.

Draining is a loop that does not count. It looks at the bytes from a position on, and
goes round again from a position further on until something makes it leave. How far the
position moves is told by the event of a record, or by a length that a peer has declared.
Would that ever be nothing, the loop would never leave; would it be too much, the position
would leave the buffer.

It is neither, whatever the consumer makes of the record and whatever is wrong with it. A
round stays where it is, and then it is the last, or it uses a record that is all there
and has a header at least (`Draining.round_cases`). So the rounds from any position of a
buffer on have an end (`Draining.Course`, `Draining.exists_course`), and there are no more
of them than bytes are used, but for the last (`Draining.ends_within`).
-/
import EventWire.Proofs.DecodeInPlace

namespace EventWire

/-! ## The record at a position -/

theorem HeaderForm.width_ofId (id : UInt32) : (ofId id).width = if id ≤ 254 then 1 else 5 := by
  rw [ofId, maxCompactId]
  by_cases hsmall : id ≤ 254
  · rw [if_pos hsmall, if_neg (UInt32.not_lt.mpr hsmall)]
    rfl
  · rw [if_neg hsmall, if_pos (UInt32.not_le.mp hsmall)]
    rfl

theorem Schema.isCanonical_of_resolveHeader {schema : Schema} {header : Header}
    {resolved : Event × Codec} (h : schema.resolveHeader header = some resolved) :
    header.isCanonical := by
  unfold resolveHeader at h
  split at h
  · assumption
  · exact nomatch h

namespace Registry

variable {registry after : Registry} {header : Header} {codec : Codec}

/-- A header that calls for a codec is as wide as its id needs. -/
theorem headerWidth_of_codecOfHeader?
    (h : registry.codecOfHeader? header = (some codec, after)) :
    codec.layout.headerWidth = if header.id ≤ 254 then 1 else 5 := by
  have hfound := registry.codecOfHeader?_fst header
  rw [h] at hfound
  obtain ⟨⟨event, found⟩, hresolved, rfl⟩ := Option.map_eq_some_iff.mp hfound.symm
  have hform := (Schema.form_of_resolveHeader hresolved).2
  have hown : header.form = .ofId header.id := by
    simpa [Header.isCanonical] using Schema.isCanonical_of_resolveHeader hresolved
  show found.layout.form.width = _
  rw [hform, hown, HeaderForm.width_ofId]

theorem exists_codec_of_nextFrame {offset size : Nat} {data : Bytes} {event : String}
    {body : Except CodecError Record}
    (h : registry.nextFrame offset data = (.whole event size body, after)) :
    ∃ header codec, Header.read? data = some header ∧
      registry.codecOfHeader? header = (some codec, after) ∧
      codec.extent data = .known size := by
  unfold nextFrame at h
  split at h
  · exact nomatch h
  · rename_i header hread
    split at h
    · exact nomatch h
    · rename_i codec found hfound
      obtain ⟨hframe, rfl⟩ := Prod.mk.inj h
      exact ⟨header, codec, hread, hfound, (Codec.nextFrame_eq_whole hframe).2.1⟩

end Registry

/-! ## One round -/

namespace Draining

variable {σ : Type} {consumer : Consumer σ} {base : Nat} {buffer : Bytes}

/-- One state of draining comes of another as the record at the position is used. -/
structure Advances (buffer : Bytes) (draining next : Draining σ) (header : Header) (codec : Codec)
    (size : Nat) : Prop where
  read : Header.read? (buffer.drop draining.used) = some header
  /-- The header calls for a codec. -/
  resolved : draining.registry.codecOfHeader? header = (some codec, next.registry)
  /-- The codec tells the length of the record, as that of all records of the event or
  from what this one declares. -/
  extent : codec.extent (buffer.drop draining.used) = .known size
  used : next.used = draining.used + size
  headerWidth : codec.layout.headerWidth = if header.id ≤ 254 then 1 else 5
  headerWidth_le : codec.layout.headerWidth ≤ size
  /-- No more is used than is left. -/
  size_le : size ≤ buffer.length - draining.used

theorem advances_of_nextFrame {draining : Draining σ} {event : String} {size : Nat}
    {body : Except CodecError Record} {registry : Registry}
    (h : draining.registry.nextFrame (base + draining.used) (buffer.drop draining.used) =
      (.whole event size body, registry)) (consumed : Nat) (state : σ) :
    ∃ header codec, Advances buffer draining ⟨draining.used + size, consumed, registry, state⟩
      header codec size := by
  obtain ⟨header, codec, hread, hresolved, hextent⟩ := Registry.exists_codec_of_nextFrame h
  have hsize := (Registry.nextFrame_whole h).2
  rw [List.length_drop] at hsize
  exact ⟨header, codec, hread, hresolved, hextent, rfl,
    Registry.headerWidth_of_codecOfHeader? hresolved, Codec.headerWidth_le_of_extent hextent,
    hsize⟩

/-- A round that finds what it looks at has not left the buffer. -/
theorem used_le_of_round {draining : Draining σ} {round : Round σ}
    (h : draining.round consumer base buffer = .ok round) : draining.used ≤ buffer.length := by
  by_contra hbeyond
  have hrest : buffer.between draining.used buffer.length = .error .outOfBounds :=
    if_neg (by omega)
  unfold Draining.round Registry.frameInPlace at h
  rw [hrest] at h
  exact nomatch h

/-- **What a round does.** It stays where it is, and is the last one; or it uses the
record at the position, and then it is the last only if the consumer refuses that. -/
theorem round_cases {draining : Draining σ} {round : Round σ}
    (h : draining.round consumer base buffer = .ok round) :
    (∃ last error, round = .last last error ∧ last.used = draining.used) ∨
      ∃ after header codec size, Advances buffer draining after header codec size ∧
        (round = .next after ∨ ∃ error, round = .last after (some error)) := by
  have hused := used_le_of_round h
  rw [Draining.round, draining.registry.frameInPlace_eq base hused] at h
  simp only [bind, Except.bind] at h
  rcases hframe : draining.registry.nextFrame (base + draining.used) (buffer.drop draining.used)
    with ⟨_ | error | ⟨event, size, error | record⟩, registry⟩
  all_goals rw [hframe] at h
  · cases h
    exact .inl ⟨_, _, rfl, rfl⟩
  · cases h
    exact .inl ⟨_, _, rfl, rfl⟩
  · cases h
    obtain ⟨header, codec, hadvances⟩ := advances_of_nextFrame hframe _ _
    exact .inr ⟨_, header, codec, size, hadvances, .inl rfl⟩
  · simp only [] at h
    rcases hconsume : consumer.consume event record draining.state with ⟨error | _, state⟩
    all_goals
      rw [hconsume] at h
      cases h
    · obtain ⟨header, codec, hadvances⟩ := advances_of_nextFrame hframe _ _
      exact .inr ⟨_, header, codec, size, hadvances, .inr ⟨error, rfl⟩⟩
    · obtain ⟨header, codec, hadvances⟩ := advances_of_nextFrame hframe _ _
      exact .inr ⟨_, header, codec, size, hadvances, .inl rfl⟩

/-- A record that is used takes the position further, but not out of the buffer. -/
theorem Advances.used_lt {draining next : Draining σ} {header : Header} {codec : Codec}
    {size : Nat} (h : Advances buffer draining next header codec size) :
    draining.used < next.used ∧ next.used ≤ buffer.length := by
  have hpos := codec.layout.headerWidth_pos
  have hheader := h.headerWidth_le
  have hsize := h.size_le
  rw [h.used]
  omega

theorem advances_of_next {draining next : Draining σ}
    (h : draining.round consumer base buffer = .ok (.next next)) :
    ∃ header codec size, Advances buffer draining next header codec size := by
  rcases round_cases h with ⟨_, _, hlast, -⟩ | ⟨_, header, codec, size, hadvances, hround⟩
  · exact nomatch hlast
  · rcases hround with hnext | ⟨_, hlast⟩
    · cases hnext
      exact ⟨header, codec, size, hadvances⟩
    · exact nomatch hlast

theorem used_of_last {draining last : Draining σ} {error : Option CodecError}
    (h : draining.round consumer base buffer = .ok (.last last error)) :
    draining.used ≤ last.used ∧ last.used ≤ buffer.length := by
  have hused := used_le_of_round h
  rcases round_cases h with ⟨_, _, hlast, hstays⟩ | ⟨_, _, _, _, hadvances, hround⟩
  · cases hlast
    omega
  · rcases hround with hnext | ⟨_, hlast⟩
    · exact nomatch hnext
    · cases hlast
      have := hadvances.used_lt
      omega

/-! ## All rounds -/

variable (consumer base buffer) in
/-- The rounds from a state on: those that use records of the given sizes and are followed
by another, and the last one. -/
inductive Course : Draining σ → List Nat → Draining σ → Option CodecError → Prop
  | last {draining last : Draining σ} {error : Option CodecError}
    (round : draining.round consumer base buffer = .ok (.last last error)) :
    Course draining [] last error
  | next {draining next last : Draining σ} {size : Nat} {sizes : List Nat}
    {error : Option CodecError} (round : draining.round consumer base buffer = .ok (.next next))
    (used : next.used = draining.used + size) (rest : Course next sizes last error) :
    Course draining (size :: sizes) last error

/-- **From any position of a buffer on** the rounds have an end: each of them that is not
the last leaves fewer bytes to the others. -/
theorem exists_course (consumer : Consumer σ) (base : Nat) {draining : Draining σ}
    (h : draining.used ≤ buffer.length) :
    ∃ sizes last error, Course consumer base buffer draining sizes last error := by
  induction hrest : buffer.length - draining.used using Nat.strong_induction_on
    generalizing draining with
  | _ rest ih =>
    rcases round_eq consumer base h with
      ⟨last, error, hround, -⟩ | ⟨next, hround, hmore, hnext, -⟩
    · exact ⟨[], last, error, .last hround⟩
    · obtain ⟨sizes, last, error, hcourse⟩ := ih _ (by omega) hnext rfl
      obtain ⟨size, hsize⟩ := Nat.exists_eq_add_of_le (Nat.le_of_lt hmore)
      exact ⟨size :: sizes, last, error, .next hround hsize hcourse⟩

namespace Course

variable {draining last : Draining σ} {sizes : List Nat} {error : Option CodecError}

/-- There are no more rounds than bytes in their records. -/
theorem length_le_sum (h : Course consumer base buffer draining sizes last error) :
    sizes.length ≤ sizes.sum := by
  induction h with
  | last _ => exact Nat.le_refl _
  | next hround hused _ ih =>
    obtain ⟨_, _, _, hadvances⟩ := advances_of_next hround
    have := hadvances.used_lt
    rw [List.length_cons, List.sum_cons]
    omega

/-- The records lie one behind the other. -/
theorem used_add_sum_le (h : Course consumer base buffer draining sizes last error) :
    draining.used + sizes.sum ≤ last.used := by
  induction h with
  | last hround => exact (used_of_last hround).1
  | next hround hused _ ih =>
    rw [List.sum_cons]
    omega

theorem used_le_length (h : Course consumer base buffer draining sizes last error) :
    last.used ≤ buffer.length := by
  induction h with
  | last hround => exact (used_of_last hround).2
  | next _ _ _ ih => exact ih

/-- A number of rounds that is given is enough if it leaves one for the last. -/
theorem run_eq (h : Course consumer base buffer draining sizes last error) (rounds : Nat) :
    draining.run consumer base buffer rounds =
      .ok (if sizes.length < rounds then some (last, error) else none) := by
  induction h generalizing rounds with
  | last hround =>
    cases rounds with
    | zero => rfl
    | succ rounds =>
      rw [Draining.run, hround]
      rfl
  | next hround _ _ ih =>
    cases rounds with
    | zero => rfl
    | succ rounds =>
      rw [Draining.run, hround]
      simp only [bind, Except.bind, ih, List.length_cons, Nat.add_lt_add_iff_right]

/-- What has been drained when the rounds have ended. -/
theorem drain_eq (h : Course consumer base buffer draining sizes last error)
    (hused : draining.used ≤ buffer.length) :
    drain consumer draining.registry (base + draining.used) (buffer.drop draining.used)
      draining.consumed draining.state = drained base buffer last error := by
  have hrounds : buffer.length - draining.used < buffer.length + sizes.length + 1 := by omega
  obtain ⟨found, reason, hrun, -, hdrain⟩ := @Draining.run_eq σ consumer base _ _ _ hused hrounds
  rw [h.run_eq, if_pos (by omega)] at hrun
  cases hrun
  exact hdrain

end Course

/-- **Draining comes to an end**, for any registry, any buffer and any consumer. Each round
but the last takes the position further by the length of a record, which is the width of
its header at least, one or five, and no more than is left. So there are no more rounds
before the last than there are bytes in the buffer, and no more bytes are used. Held to a
number of rounds, draining comes to its end if the number leaves one for the last round,
and only then; and it is the end that draining has without a number. -/
theorem ends_within (consumer : Consumer σ) (registry : Registry) (base : Nat) (buffer : Bytes)
    (state : σ) :
    (∀ draining next : Draining σ, draining.round consumer base buffer = .ok (.next next) →
      ∃ header codec size, Advances buffer draining next header codec size) ∧
    ∃ sizes last error,
      Course consumer base buffer ⟨0, 0, registry, state⟩ sizes last error ∧
      sizes.length ≤ buffer.length ∧
      sizes.length ≤ sizes.sum ∧ sizes.sum ≤ last.used ∧ last.used ≤ buffer.length ∧
      (∀ rounds, run consumer base buffer rounds ⟨0, 0, registry, state⟩ =
        .ok (if sizes.length < rounds then some (last, error) else none)) ∧
      drain consumer registry base buffer 0 state = drained base buffer last error := by
  refine ⟨fun draining next hround => advances_of_next hround, ?_⟩
  have hstart : (⟨0, 0, registry, state⟩ : Draining σ).used ≤ buffer.length := Nat.zero_le _
  obtain ⟨sizes, last, error, hcourse⟩ := exists_course consumer base hstart
  have hcount := hcourse.length_le_sum
  have hsum := hcourse.used_add_sum_le
  have hlast := hcourse.used_le_length
  rw [Nat.zero_add] at hsum
  refine ⟨sizes, last, error, hcourse, by omega, hcount, hsum, hlast, hcourse.run_eq, ?_⟩
  exact hcourse.drain_eq hstart

end Draining

/-- A registry with an event that has no fields. -/
def tickRegistry : Registry := (Registry.ofSettings {}).perform (.define 0 "tick" [])

/-- A record without fields is a header only, so here a round goes by for each byte of the
buffer before the last one. -/
theorem Draining.ends_within_ticks :
    let start : Draining (List (String × Record)) := ⟨0, 0, tickRegistry, []⟩
    (∃ second, start.round .collector 0 [0, 0, 0] = .ok (.next second) ∧
      ∃ header codec size, Advances [0, 0, 0] start second header codec size) ∧
    ∃ sizes last error, Course .collector 0 [0, 0, 0] start sizes last error ∧
      sizes.length = 3 ∧ last.used = 3 := by
  intro start
  obtain ⟨hadvances, sizes, last, error, hcourse, hlength, hcount, hsum, hlast, hrun, -⟩ :=
    ends_within .collector tickRegistry 0 [0, 0, 0] []
  have hthree : start.run .collector 0 [0, 0, 0] 3 = .ok none := by cbv
  have hmany : ¬ sizes.length < 3 := by
    intro hfew
    rw [hrun, if_pos hfew] at hthree
    cases hthree
  have hbytes : ([0, 0, 0] : Bytes).length = 3 := rfl
  refine ⟨?_, sizes, last, error, hcourse, by omega, by omega⟩
  cases hcourse with
  | last => exact absurd (Nat.zero_lt_succ _) hmany
  | @next _ second _ _ _ _ hround => exact ⟨second, hround, hadvances start second hround⟩

end EventWire
