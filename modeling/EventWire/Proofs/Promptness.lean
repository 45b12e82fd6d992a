/-
EventWire.Proofs.Promptness — records are handed over with the chunk that
completes them.

A framer stops reading where it waits for more, where nothing can be read, and
where a record is refused. Without a refusal no whole frame is left, then
(`Turn.Obeys.not_whole`), so a walk along what it was fed has cut off all the
records there are (`Schema.Reads.all_records`). If every chunk so far was answered
with a count, this was so after each of them, and what the calls of one more chunk
tell of are the records that were not there before (`Journal.records_prompt`).

Where the framer waits, the decoder finds the record cut short: the two agree on
what is missing, at every byte of a header, a length or a body
(`Schema.cutShort_of_incomplete`).
-/
import EventWire.Proofs.Delimiting
import EventWire.Proofs.Halting

namespace EventWire

variable {σ : Type} {schema : Schema}

/-! ## What is left after a chunk -/

namespace Turn

variable {turn : Turn σ}

theorem Obeys.walks (h : turn.Obeys schema) (hreading : turn.before.halted = none) :
    schema.Reads turn.before.offset (turn.before.pending ++ turn.chunk) turn.calls
      turn.after.offset turn.after.pending := by
  cases h with
  | ignored hhalted _ _ _ =>
    rw [hreading] at hhalted
    exact nomatch hhalted
  | read _ _ hreads _ => exact hreads

/-- Without a refusal nothing that is whole is left. -/
theorem Obeys.not_whole (h : turn.Obeys schema) (hreading : turn.before.halted = none)
    (hnone : turn.refusals = []) (event : String) (size : Nat)
    (body : Except CodecError Record) :
    schema.nextFrame turn.after.offset turn.after.pending ≠ .whole event size body := by
  cases h with
  | ignored hhalted _ _ _ =>
    rw [hreading] at hhalted
    exact nomatch hhalted
  | read _ _ _ hends =>
    cases hends with
    | waiting _ hframe _ _ _ => simp [hframe]
    | overflow _ hframe _ _ _ => simp [hframe]
    | unreadable _ hframe _ _ => simp [hframe]
    | refused earlier hearlier hlast _ _ =>
      rw [refusals_eq_singleton hearlier hlast] at hnone
      exact absurd hnone (List.cons_ne_nil _ _)

/-- After a count the framer waits. -/
theorem Obeys.waits (h : turn.Obeys schema) {count : Nat} (hresult : turn.result = .ok count) :
    turn.before.halted = none ∧ turn.after.halted = none ∧
      schema.nextFrame turn.after.offset turn.after.pending = .incomplete := by
  cases h with
  | ignored _ _ herror _ =>
    rw [herror] at hresult
    exact nomatch hresult
  | read hreading _ _ hends =>
    cases hends with
    | waiting _ hframe _ hhalted _ => exact ⟨hreading, hhalted, hframe⟩
    | overflow _ _ _ _ herror | unreadable _ _ _ herror | refused _ _ _ _ herror =>
      rw [herror] at hresult
      exact nomatch hresult

/-- It has only waited for too much if it says so itself. -/
theorem Obeys.waits_over_limit (h : turn.Obeys schema) {pending limit : Nat}
    (hresult : turn.result = .error (.pendingOverflow pending limit))
    (hnone : turn.refusals = []) :
    schema.nextFrame turn.after.offset turn.after.pending = .incomplete := by
  cases h with
  | ignored _ _ herror _ =>
    rw [herror] at hresult
    exact nomatch hresult
  | read _ _ _ hends =>
    cases hends with
    | waiting _ _ _ _ hok =>
      rw [hok] at hresult
      exact nomatch hresult
    | overflow _ hframe _ _ _ => exact hframe
    | unreadable _ hframe _ herror =>
      rw [herror] at hresult
      cases hresult
      rcases Schema.decodeFirst_of_unreadable hframe with ⟨_, hother, -⟩ | ⟨_, _, _, hother, -⟩ <;>
        exact nomatch hother
    | refused earlier hearlier hlast _ _ =>
      rw [refusals_eq_singleton hearlier hlast] at hnone
      exact absurd hnone (List.cons_ne_nil _ _)

end Turn

/-- If all chunks so far were answered with a count, the framer has heard all of
them, and waits. -/
theorem Framer.Past.waits {turns : List (Turn σ)} {framer : Framer} (h : Past schema turns framer)
    (hok : ∀ turn ∈ turns, ∃ count, turn.result = .ok count) :
    framer.halted = none ∧ schema.nextFrame framer.offset framer.pending = .incomplete ∧
      turns.flatMap Turn.heard = turns.flatMap Turn.chunk := by
  induction h with
  | new settings => exact ⟨rfl, rfl, rfl⟩
  | @turn turns turn hearlier hobeys ih =>
    obtain ⟨-, -, hheard⟩ := ih fun other hmem => hok other (List.mem_append_left _ hmem)
    obtain ⟨count, hresult⟩ := hok turn (by simp)
    obtain ⟨hreading, hhalted, hframe⟩ := hobeys.waits hresult
    have hlast : turn.heard = turn.chunk := by simp [Turn.heard, Framer.isHalted, hreading]
    refine ⟨hhalted, hframe, ?_⟩
    rw [List.flatMap_append, List.flatMap_append, hheard, List.flatMap_singleton,
      List.flatMap_singleton, hlast]

/-! ## The records that a chunk completes -/

namespace Journal

/-- **No complete record is withheld, and none is made up.** A framer is asked
anything, with any limit and any consumers, and then fed one more chunk. If this is
answered with a count, or with an overflow that the framer itself has found, the
decoder says of what is pending that it is cut short.

The stream is cut into records by decoding it from its start, that is where the
framer was made or last reset. If all chunks since then were answered with a count
and no record of this chunk is refused, the calls made before tell of the records
that were there before, and those made now tell of the records that the chunk has
completed, each once and in order. -/
theorem records_prompt (settings : FramerSettings) (registry : Registry) (start : σ)
    (requests : List (Session.Request σ)) (feeding : Feeding σ) :
    let journal := (opened settings registry start).serveAll requests
    let turn := journal.session.turn feeding
    let before := journal.turns.flatMap Turn.chunk
    ((∃ count, turn.result = .ok count) ∨
        (∃ pending limit, turn.result = .error (.pendingOverflow pending limit)) ∧
          turn.refusals = [] →
      CutShort (turn.registry.decodeFirst turn.after.pending).1) ∧
    ((∀ earlier ∈ journal.turns, ∃ count, earlier.result = .ok count) → turn.refusals = [] →
      ∃ completed,
        registry.records (before ++ feeding.chunk) = registry.records before ++ completed ∧
        List.Forall₂ registry.Tells (registry.records before)
          (journal.turns.flatMap Turn.calls) ∧
        List.Forall₂ registry.Tells completed turn.calls) := by
  intro journal turn before
  have hopened : (opened settings registry start).Complete registry.schema :=
    ⟨.new settings, rfl⟩
  obtain ⟨hpast, hschema⟩ : journal.Complete registry.schema := hopened.serveAll requests
  have hobeys : turn.Obeys registry.schema := by
    rw [← hschema]
    exact Framer.turn_obeys ..
  constructor
  · intro hwaiting
    have hframe : registry.schema.nextFrame turn.after.offset turn.after.pending =
        .incomplete := by
      rcases hwaiting with ⟨count, hresult⟩ | ⟨⟨pending, limit, hresult⟩, hnone⟩
      · exact (hobeys.waits hresult).2.2
      · exact hobeys.waits_over_limit hresult hnone
    have hafter : turn.registry.schema = registry.schema :=
      (Framer.schema_turn ..).trans hschema
    rw [Registry.decodeFirst_fst, hafter]
    exact Schema.cutShort_of_incomplete hframe
  · intro hok hnone
    obtain ⟨hreading, hframe, hheard⟩ := hpast.waits hok
    have hreads := hpast.reads
    rw [hheard] at hreads
    obtain ⟨htells, -, hmore⟩ := hreads.all_records fun event size body => by simp [hframe]
    obtain ⟨hcompleted, -⟩ := (hobeys.walks hreading).all_records (hobeys.not_whole hreading hnone)
    exact ⟨_, hmore feeding.chunk, htells, hcompleted⟩

end Journal

end EventWire
