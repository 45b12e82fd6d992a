/-
EventWire.Proofs.FinerChunks — what a limit makes of the cuts.

With a limit on what may be pending it matters where a stream is cut: the limit is
looked at when a chunk has been drained, and there may be more of a record then than
a moment later. But nothing else of the cuts matters. Whether the limit is exceeded
at the end of a chunk can be told from the stream up to there
(`Scan.overflow?`), and a framer says so for the first chunk of which it is true
(`Framer.InStep.overflowsAt_iff`). Until then it does what a framer without limit does
(`Framer.InStep.feedAll_within`).

Finer chunks have all the ends of the coarser ones, and more. So what goes well in
finer chunks goes well in coarser ones, and a limit that is exceeded in coarser
chunks has been exceeded in finer ones by then (`Framer.finer_chunks`).
-/
import EventWire.Proofs.Delimiting

namespace EventWire

variable {σ : Type}

/-! ## What a scan says of a limit -/

/-- What a framer of these settings has to say about what a scan has left: a scan
that has stopped for good is none of its concern. -/
def Scan.overflow? (scan : Scan) (settings : FramerSettings) : Option CodecError :=
  match scan.error with
  | some _ => none
  | none => Framer.overflow? { settings, pending := scan.rest }

theorem Scan.overflow?_eq_some {scan : Scan} {settings : FramerSettings} {error : CodecError}
    (h : scan.overflow? settings = some error) :
    scan.error = none ∧ ∃ limit, settings.maxPending = some limit ∧ limit < scan.rest.length ∧
      error = .pendingOverflow scan.rest.length limit := by
  unfold overflow? at h
  split at h
  · exact nomatch h
  · rename_i herror
    exact ⟨herror, Framer.eq_of_overflow? h⟩

namespace Schema

variable {schema : Schema} {offset : Nat} {data : Bytes}

/-- A scan stops for other reasons. -/
theorem scan_error_ne_overflow {pending limit : Nat} :
    (schema.scan offset data).error ≠ some (.pendingOverflow pending limit) := by
  intro herror
  obtain ⟨-, hframe⟩ := schema.reads_scan offset data
  rw [herror] at hframe
  rcases decodeFirst_of_unreadable hframe with ⟨_, hother, -⟩ | ⟨_, _, _, hother, -⟩ <;>
    exact nomatch hother

theorem overflow?_scan_nil (settings : FramerSettings) :
    (schema.scan offset []).overflow? settings = none := by
  have hframe : schema.nextFrame offset [] = .incomplete := rfl
  rw [scan_incomplete hframe, Scan.overflow?, Framer.overflow?]
  cases settings.maxPending <;> simp

end Schema

/-! ## One chunk with a limit -/

def Framer.withSettings (framer : Framer) (settings : FramerSettings) : Framer :=
  { framer with settings }

def Fed.withSettings (fed : Fed σ) (settings : FramerSettings) : Fed σ :=
  { fed with framer := fed.framer.withSettings settings }

def Run.withSettings (run : Run σ) (settings : FramerSettings) : Run σ :=
  { run with framer := run.framer.withSettings settings }

/-- A chunk is answered with this overflow. -/
def Run.OverflowsAt (run : Run σ) (n pending limit : Nat) : Prop :=
  run.results[n]? = some (.error (.pendingOverflow pending limit))

def Run.NeverOverflows (run : Run σ) : Prop := ∀ n pending limit, ¬ run.OverflowsAt n pending limit

namespace Framer

variable {framer : Framer} {registry : Registry} {state : σ} {consumer : Consumer σ}
  {schema : Schema} {start : σ} {stream : Bytes}

theorem feedAll_cons (framer : Framer) (consumer : Consumer σ) (registry : Registry)
    (chunk : Bytes) (chunks : List Bytes) (state : σ) :
    let fed := framer.feed consumer registry chunk state
    let run := fed.framer.feedAll consumer fed.registry chunks fed.state
    framer.feedAll consumer registry (chunk :: chunks) state =
      { run with results := fed.result :: run.results } := rfl

/-- A limit comes in when a chunk has been answered with a count. -/
theorem feed_withSettings (hfree : framer.settings.maxPending = none) (settings : FramerSettings)
    (consumer : Consumer σ) (registry : Registry) (chunk : Bytes) (state : σ) :
    let fed := framer.feed consumer registry chunk state
    (framer.withSettings settings).feed consumer registry chunk state =
      match fed.result, (fed.withSettings settings).framer.overflow? with
      | .ok _, some error =>
        ⟨.error error, (fed.withSettings settings).framer.halt error, fed.registry, fed.state⟩
      | _, _ => fed.withSettings settings := by
  obtain ⟨free, pending, halted, offset⟩ := framer
  unfold feed withSettings
  cases halted with
  | some cause => rfl
  | none =>
    dsimp only
    generalize drain consumer registry offset (pending ++ chunk) 0 state = drained
    obtain ⟨consumed, error, offset, rest, after, next⟩ := drained
    cases error with
    | some error =>
      dsimp only
      split <;> rfl
    | none =>
      have hunlimited : free.maxPending = none := hfree
      have hnone : overflow? ⟨free, rest, none, offset⟩ = none := by
        simp [overflow?, hunlimited]
      dsimp only
      simp only [hnone, Fed.withSettings, withSettings]
      cases overflow? ⟨settings, rest, none, offset⟩ <;> rfl

/-- A chunk is answered with a count and the scan goes on, or with an error that has
nothing to do with a limit. -/
theorem InStep.result_cases (h : InStep framer registry state consumer schema start stream)
    (hnever : consumer.NeverFails) (chunk : Bytes) :
    (∃ count, (framer.feed consumer registry chunk state).result = .ok count ∧
        (schema.scan 0 (stream ++ chunk)).error = none) ∨
      ∃ error, (framer.feed consumer registry chunk state).result = .error error ∧
        ∀ pending limit, error ≠ .pendingOverflow pending limit := by
  cases herror : (schema.scan 0 (stream ++ chunk)).error with
  | none =>
    obtain ⟨count, hresult, -⟩ := h.feed_ok hnever herror
    exact .inl ⟨count, hresult, rfl⟩
  | some cause =>
    cases hhalted : framer.halted with
    | some earlier => exact .inr ⟨_, by rw [feed_of_halted hhalted], by simp⟩
    | none =>
      refine .inr ⟨cause, h.feed_error hnever hhalted herror, ?_⟩
      rintro pending limit rfl
      exact Schema.scan_error_ne_overflow herror

/-- What a limit makes of what is pending, if the scan goes on. -/
theorem InStep.overflow?_feed (h : InStep framer registry state consumer schema start stream)
    (hnever : consumer.NeverFails) {chunk : Bytes}
    (hreadable : (schema.scan 0 (stream ++ chunk)).error = none) (settings : FramerSettings) :
    ((framer.feed consumer registry chunk state).withSettings settings).framer.overflow? =
      (schema.scan 0 (stream ++ chunk)).overflow? settings := by
  have hnext := h.feed hnever chunk
  have hpending := (hnext.pending (hnext.halted.trans hreadable)).1
  rw [Scan.overflow?, hreadable, ← hpending]
  rfl

/-- Within the limit, there might as well be none. -/
theorem InStep.feed_within (h : InStep framer registry state consumer schema start stream)
    (hnever : consumer.NeverFails) {settings : FramerSettings} {chunk : Bytes}
    (hwithin : (schema.scan 0 (stream ++ chunk)).overflow? settings = none) :
    (framer.withSettings settings).feed consumer registry chunk state =
      (framer.feed consumer registry chunk state).withSettings settings := by
  rw [feed_withSettings h.unlimited]
  rcases h.result_cases hnever chunk with ⟨count, hresult, hreadable⟩ | ⟨error, hresult, -⟩
  · rw [hresult, h.overflow?_feed hnever hreadable, hwithin]
  · rw [hresult]

/-- Beyond it, the framer halts, and says so. -/
theorem InStep.feed_beyond (h : InStep framer registry state consumer schema start stream)
    (hnever : consumer.NeverFails) {settings : FramerSettings} {chunk : Bytes} {error : CodecError}
    (hbeyond : (schema.scan 0 (stream ++ chunk)).overflow? settings = some error) :
    let fed := (framer.withSettings settings).feed consumer registry chunk state
    fed.result = .error error ∧ fed.framer.halted = some error := by
  have hreadable := (Scan.overflow?_eq_some hbeyond).1
  obtain ⟨count, hresult, -⟩ := h.feed_ok hnever hreadable
  rw [feed_withSettings h.unlimited, hresult, h.overflow?_feed hnever hreadable, hbeyond]
  exact ⟨rfl, rfl⟩

/-! ## Any number of chunks with a limit -/

/-- What a limit has to say at the end of one of some chunks that follow a stream. -/
def overflowAt? (schema : Schema) (settings : FramerSettings) (stream : Bytes)
    (chunks : List Bytes) (n : Nat) : Option CodecError :=
  (schema.scan 0 (stream ++ (chunks.take (n + 1)).flatten)).overflow? settings

@[simp] theorem overflowAt?_zero (settings : FramerSettings) (chunk : Bytes)
    (chunks : List Bytes) :
    overflowAt? schema settings stream (chunk :: chunks) 0 =
      (schema.scan 0 (stream ++ chunk)).overflow? settings := by
  simp [overflowAt?]

@[simp] theorem overflowAt?_succ (settings : FramerSettings) (chunk : Bytes)
    (chunks : List Bytes) (n : Nat) :
    overflowAt? schema settings stream (chunk :: chunks) (n + 1) =
      overflowAt? schema settings (stream ++ chunk) chunks n := by
  simp [overflowAt?]

/-- **Within the limit** at the end of each chunk, there might as well be none. -/
theorem InStep.feedAll_within (h : InStep framer registry state consumer schema start stream)
    (hnever : consumer.NeverFails) {settings : FramerSettings} {chunks : List Bytes}
    (hwithin : ∀ n < chunks.length, overflowAt? schema settings stream chunks n = none) :
    (framer.withSettings settings).feedAll consumer registry chunks state =
      (framer.feedAll consumer registry chunks state).withSettings settings := by
  induction chunks generalizing framer registry state stream with
  | nil => rfl
  | cons chunk chunks ih =>
    have hfirst := hwithin 0 (Nat.succ_pos _)
    rw [overflowAt?_zero] at hfirst
    have hlater : ∀ n < chunks.length,
        overflowAt? schema settings (stream ++ chunk) chunks n = none := by
      intro n hn
      rw [← overflowAt?_succ]
      exact hwithin (n + 1) (Nat.succ_lt_succ hn)
    have hrest := ih (h.feed hnever chunk) hlater
    rw [feedAll_cons, feedAll_cons, h.feed_within hnever hfirst, Fed.withSettings]
    dsimp only
    rw [hrest]
    rfl

theorem results_of_halted {cause : CodecError} (h : framer.halted = some cause)
    (chunks : List Bytes) :
    ∀ result ∈ (framer.feedAll consumer registry chunks state).results,
      result = .error (.framingHalted cause.message) := by
  induction chunks with
  | nil => exact nofun
  | cons chunk chunks ih =>
    rw [feedAll_cons, feed_of_halted h]
    intro result hresult
    rcases List.mem_cons.mp hresult with rfl | hlater
    · rfl
    · exact ih result hlater

/-- **The limit is exceeded once**, at the first end of a chunk where there is too
much. -/
theorem InStep.overflowsAt_iff
    (h : InStep framer registry state consumer schema start stream)
    (hnever : consumer.NeverFails) {settings : FramerSettings} {chunks : List Bytes}
    {n pending limit : Nat} :
    ((framer.withSettings settings).feedAll consumer registry chunks state).OverflowsAt n pending
        limit ↔
      n < chunks.length ∧
        overflowAt? schema settings stream chunks n = some (.pendingOverflow pending limit) ∧
        ∀ m < n, overflowAt? schema settings stream chunks m = none := by
  unfold Run.OverflowsAt
  induction chunks generalizing framer registry state stream n with
  | nil => simp [Framer.feedAll]
  | cons chunk chunks ih =>
    rw [feedAll_cons]
    cases hfirst : (schema.scan 0 (stream ++ chunk)).overflow? settings with
    | some error =>
      obtain ⟨hresult, hhalted⟩ := h.feed_beyond hnever hfirst
      cases n with
      | zero => simp [hresult, hfirst]
      | succ n =>
        -- the framer has halted with the first chunk
        constructor
        · intro hlater
          cases results_of_halted hhalted chunks _ (List.mem_of_getElem? hlater)
        · rintro ⟨-, -, hnone⟩
          have hzero := hnone 0 (Nat.succ_pos n)
          rw [overflowAt?_zero, hfirst] at hzero
          cases hzero
    | none =>
      rw [h.feed_within hnever hfirst]
      cases n with
      | zero =>
        rcases h.result_cases hnever chunk with ⟨count, hresult, -⟩ | ⟨error, hresult, hne⟩
        · simp [Fed.withSettings, hresult, hfirst]
        · simp [Fed.withSettings, hresult, hfirst, hne]
      | succ n =>
        have hearlier : (∀ m < n + 1, overflowAt? schema settings stream (chunk :: chunks) m =
            none) ↔ ∀ m < n, overflowAt? schema settings (stream ++ chunk) chunks m = none := by
          rw [Nat.forall_lt_succ_left']
          simp [hfirst]
        rw [hearlier, overflowAt?_succ, List.length_cons, Nat.succ_lt_succ_iff]
        exact ih (h.feed hnever chunk)

/-! ## Finer chunks -/

variable {settings : FramerSettings} {chunks : List Bytes} {n : Nat}

theorem overflowsAt_iff (hnever : consumer.NeverFails) (registry : Registry) (start : σ)
    {pending limit : Nat} :
    (feedAll { settings } consumer registry chunks start).OverflowsAt n pending limit ↔
      n < chunks.length ∧
        overflowAt? registry.schema settings [] chunks n =
          some (.pendingOverflow pending limit) ∧
        ∀ m < n, overflowAt? registry.schema settings [] chunks m = none :=
  (inStep_fresh registry consumer start).overflowsAt_iff hnever

/-- Where there is too much at the end of a chunk, there is a first such end. -/
theorem exists_overflowsAt (hnever : consumer.NeverFails) (registry : Registry)
    (start : σ) {error : CodecError} (hn : n < chunks.length)
    (h : overflowAt? registry.schema settings [] chunks n = some error) :
    ∃ m ≤ n, ∃ pending limit, settings.maxPending = some limit ∧
      (feedAll { settings } consumer registry chunks start).OverflowsAt m pending limit := by
  have hexists : ∃ m, (overflowAt? registry.schema settings [] chunks m).isSome :=
    ⟨n, by simp [h]⟩
  let first := Nat.find hexists
  have hle : first ≤ n := Nat.find_min' hexists (by simp [h])
  obtain ⟨found, hfound⟩ := Option.isSome_iff_exists.mp (Nat.find_spec hexists)
  have hearlier : ∀ m < first, overflowAt? registry.schema settings [] chunks m = none := by
    intro m hm
    simpa using Nat.find_min hexists hm
  obtain ⟨-, limit, hlimit, -, rfl⟩ := Scan.overflow?_eq_some hfound
  exact ⟨first, hle, _, limit, hlimit,
    (overflowsAt_iff hnever registry start).mpr ⟨hle.trans_lt hn, hfound, hearlier⟩⟩

/-- Without an overflow, a run with a limit is one without a limit: its calls are
those of a scan, and it has halted if the scan has. -/
theorem scan_of_no_overflow (hnever : consumer.NeverFails) (registry : Registry) (start : σ)
    (h : (feedAll { settings } consumer registry chunks start).NeverOverflows) :
    callsOf { settings } consumer registry chunks start =
        (registry.schema.scan 0 chunks.flatten).calls ∧
      (feedAll { settings } consumer registry chunks start).framer.halted =
        (registry.schema.scan 0 chunks.flatten).error := by
  have hwithin : ∀ n < chunks.length, overflowAt? registry.schema settings [] chunks n = none := by
    intro n hn
    cases hover : overflowAt? registry.schema settings [] chunks n with
    | none => rfl
    | some error =>
      obtain ⟨m, -, pending, limit, -, hresult⟩ :=
        exists_overflowsAt hnever registry start hn hover
      exact absurd hresult (h m pending limit)
  have hlogged := (inStep_fresh registry consumer.logged ([], start)).feedAll_within
    hnever.logged hwithin
  have hrun := (inStep_fresh registry consumer start).feedAll_within hnever hwithin
  constructor
  · rw [← callsOf_eq_scan hnever registry chunks start]
    exact congrArg (fun run => run.state.1) hlogged
  · rw [← (feedAll_reports hnever registry chunks start).halted]
    exact congrArg (fun run => run.framer.halted) hrun

/-- The end of a chunk is the end of one of the pieces. -/
theorem take_flatten_of_pieces (pieces : List (List Bytes)) (n : Nat) :
    ∃ k ≤ pieces.flatten.length,
      ((pieces.map List.flatten).take n).flatten = (pieces.flatten.take k).flatten := by
  have hfront : (pieces.take n).flatten <+: pieces.flatten := (List.take_prefix n pieces).flatten
  refine ⟨(pieces.take n).flatten.length, hfront.length_le, ?_⟩
  rw [← List.prefix_iff_eq_take.mp hfront, ← List.map_take, List.flatten_flatten]

/-- A limit that is exceeded in some chunks is exceeded by then if they are cut
further. -/
theorem exists_finer_overflow (hnever : consumer.NeverFails) (registry : Registry) (start : σ)
    {pieces : List (List Bytes)} {pending limit : Nat}
    (h : (feedAll { settings } consumer registry (pieces.map List.flatten) start).OverflowsAt n
      pending limit) :
    ∃ m pending',
      (feedAll { settings } consumer registry pieces.flatten start).OverflowsAt m pending' limit ∧
      (pieces.flatten.take (m + 1)).flatten <+:
        ((pieces.map List.flatten).take (n + 1)).flatten := by
  obtain ⟨-, hover, -⟩ := (overflowsAt_iff hnever registry start).mp h
  have hlimit : settings.maxPending = some limit := by
    obtain ⟨-, _, hlimit, -, herror⟩ := Scan.overflow?_eq_some hover
    cases herror
    exact hlimit
  obtain ⟨k, hk, hends⟩ := take_flatten_of_pieces pieces (n + 1)
  rw [overflowAt?, hends] at hover
  cases k with
  | zero =>
    -- nothing has been heard
    rw [List.take_zero] at hover
    exact nomatch (Schema.overflow?_scan_nil settings).symm.trans hover
  | succ k =>
    obtain ⟨m, hm, pending', limit', hlimit', hresult⟩ :=
      exists_overflowsAt hnever registry start hk hover
    obtain rfl := Option.some.inj (hlimit.symm.trans hlimit')
    refine ⟨m, pending', hresult, ?_⟩
    rw [hends]
    exact (List.take_prefix_take_left (Nat.succ_le_succ hm)).flatten

/-- **The limit under finer chunks.** A stream is fed in chunks, and then in pieces
of these chunks, to fresh framers of the same limit, with a consumer that never
fails. If the limit is exceeded in no piece, it is in no chunk: both runs lead to the
same calls, and halt or do not halt. In other words, if it is exceeded in a chunk, it
has been exceeded in a piece when no more of the stream had been heard.

The limit is exceeded by the tail of what has been heard, and by nothing else: by
what is left of it behind all of its records, which is part of a record. -/
theorem finer_chunks {consumer : Consumer σ} (hnever : consumer.NeverFails)
    (settings : FramerSettings) (registry : Registry) (pieces : List (List Bytes)) (start : σ) :
    let chunks := pieces.map List.flatten
    let run := feedAll { settings } consumer registry chunks start
    let finer := feedAll { settings } consumer registry pieces.flatten start
    (finer.NeverOverflows →
      run.NeverOverflows ∧
      callsOf { settings } consumer registry chunks start =
        callsOf { settings } consumer registry pieces.flatten start ∧
      run.framer.isHalted = finer.framer.isHalted) ∧
    ∀ n pending limit, run.OverflowsAt n pending limit →
      (∃ m pending', finer.OverflowsAt m pending' limit ∧
        (pieces.flatten.take (m + 1)).flatten <+: (chunks.take (n + 1)).flatten) ∧
      settings.maxPending = some limit ∧ limit < pending ∧
      pending = (registry.tail (chunks.take (n + 1)).flatten).length ∧
      CutShort (registry.decodeFirst (registry.tail (chunks.take (n + 1)).flatten)).1 := by
  intro chunks run finer
  constructor
  · intro hfiner
    have hrun : run.NeverOverflows := by
      intro n pending limit hn
      obtain ⟨m, pending', hm, -⟩ := exists_finer_overflow hnever registry start hn
      exact hfiner m pending' limit hm
    obtain ⟨hcalls, hhalted⟩ := scan_of_no_overflow hnever registry start hrun
    obtain ⟨hcalls', hhalted'⟩ := scan_of_no_overflow hnever registry start hfiner
    have hstream : chunks.flatten = pieces.flatten.flatten := (List.flatten_flatten).symm
    refine ⟨hrun, ?_, ?_⟩
    · rw [hcalls, hcalls', hstream]
    · rw [isHalted, isHalted, hhalted, hhalted', hstream]
  · intro n pending limit hn
    refine ⟨exists_finer_overflow hnever registry start hn, ?_⟩
    obtain ⟨-, hover, -⟩ := (overflowsAt_iff hnever registry start).mp hn
    obtain ⟨hreadable, limit, hlimit, hlt, herror⟩ := Scan.overflow?_eq_some hover
    cases herror
    rw [List.nil_append] at hreadable hlt ⊢
    rw [(registry.tells_scan 0 _).2]
    refine ⟨hlimit, hlt, rfl, ?_⟩
    obtain ⟨-, hframe⟩ := registry.schema.reads_scan 0 (chunks.take (n + 1)).flatten
    rw [hreadable] at hframe
    rw [Registry.decodeFirst_fst]
    exact Schema.cutShort_of_incomplete hframe

/-- A whole record and a part of the next one, each in two pieces: the limit is
exceeded by the part of the second record, but it has been exceeded by a piece of the
first one. -/
theorem finer_chunks_hostile :
    let settings : FramerSettings := { maxPending := some 5 }
    let pieces := [[hostileStream.take 6, (hostileStream.drop 6).take 5],
      [(hostileStream.drop 11).take 5, (hostileStream.drop 16).take 1]]
    let chunks := pieces.map List.flatten
    (feedAll { settings } Consumer.collector sayRegistry chunks []).results =
        [.ok 1, .error (.pendingOverflow 6 5)] ∧
      (sayRegistry.tail (chunks.take 2).flatten).length = 6 ∧
      ∃ m pending, (feedAll { settings } Consumer.collector sayRegistry pieces.flatten
        []).OverflowsAt m pending 5 := by
  intro settings pieces chunks
  have hnever : Consumer.collector.NeverFails := fun _ _ _ => rfl
  have hresults : (feedAll { settings } Consumer.collector sayRegistry chunks []).results =
      [.ok 1, .error (.pendingOverflow 6 5)] := by cbv
  obtain ⟨-, hover⟩ := finer_chunks hnever settings sayRegistry pieces []
  have hsecond : (feedAll { settings } Consumer.collector sayRegistry chunks []).OverflowsAt 1
      6 5 := by
    rw [Run.OverflowsAt, hresults]
    rfl
  obtain ⟨⟨m, pending, hm, -⟩, -, -, htail, -⟩ := hover 1 6 5 hsecond
  exact ⟨hresults, htail.symm, m, pending, hm⟩

end Framer

end EventWire
