/-
EventWire.Proofs.Delimiting — a stream cut into records by the decoder alone.

Where a record ends can be found without looking at lengths: it is the least
number of bytes, from its beginning, of which the decoder says anything but that
they are cut short or that no record can be told from them
(`Registry.recordSize?`). Cutting off one record after the other in this way gives
the records of a stream, and what is left (`Registry.records`, `Registry.tail`).

A framer has another way, by headers and declared lengths. It comes to the same:
there is a record for the decoder exactly where there is a whole frame
(`Registry.isRecord_iff`), and since more bytes change no whole frame it is as long
(`Registry.recordSize?_eq_some_iff`). So a walk over frames cuts off the first
records of a stream, whatever follows (`Schema.Reads.records`), and a scan cuts off
all of them (`Registry.tells_scan`).
-/
import EventWire.Proofs.PrefixStability

namespace EventWire

/-! ## Cutting by decoding -/

namespace Registry

/-- The bytes begin with a record, as it seems to the decoder: it can be decoded,
or there is something wrong with its body. -/
def isRecord (registry : Registry) (bytes : Bytes) : Bool :=
  match (registry.decodeFirst bytes).1 with
  | .ok _ => true
  | .error error => error.isBodyError

/-- How long the record at the front is, if all of it is there. -/
def recordSize? (registry : Registry) (data : Bytes) : Option Nat :=
  (List.range (data.length + 1)).find? fun size => registry.isRecord (data.take size)

variable {registry : Registry} {data : Bytes} {size : Nat}

theorem recordSize?_spec :
    registry.recordSize? data = some size ↔
      registry.isRecord (data.take size) ∧ size ≤ data.length ∧
        ∀ fewer < size, ¬ registry.isRecord (data.take fewer) := by
  simp [recordSize?, List.find?_range_eq_some]

theorem not_isRecord_nil (registry : Registry) : ¬ registry.isRecord [] := by
  simp [isRecord, decodeFirst, Header.read?, truncatedHeader, CodecError.isBodyError]

theorem recordSize?_pos (h : registry.recordSize? data = some size) : 0 < size := by
  obtain ⟨hrecord, -, -⟩ := recordSize?_spec.mp h
  refine Nat.pos_of_ne_zero ?_
  rintro rfl
  exact not_isRecord_nil registry hrecord

theorem recordSize?_le (h : registry.recordSize? data = some size) : size ≤ data.length :=
  (recordSize?_spec.mp h).2.1

/-- The records of a stream, cut off one after the other. -/
def records (registry : Registry) (data : Bytes) : List Bytes :=
  match _h : registry.recordSize? data with
  | none => []
  | some size => data.take size :: registry.records (data.drop size)
termination_by data.length
decreasing_by
  have := recordSize?_pos _h
  have := recordSize?_le _h
  simp only [List.length_drop]
  omega

/-- What is left of a stream behind its last record. -/
def tail (registry : Registry) (data : Bytes) : Bytes :=
  data.drop (registry.records data).flatten.length

theorem records_of_none (h : registry.recordSize? data = none) : registry.records data = [] := by
  rw [records]
  split
  · rfl
  · simp_all

theorem records_of_some (h : registry.recordSize? data = some size) :
    registry.records data = data.take size :: registry.records (data.drop size) := by
  rw [records]
  split
  · simp_all
  · simp_all

end Registry

/-! ## Cutting by frames -/

theorem Codec.cutShort_of_incomplete {codec : Codec} {data : Bytes}
    (h : codec.nextFrame data = .incomplete) : CutShort (codec.decode data) := by
  unfold nextFrame at h
  split at h
  · rename_i hextent
    exact ⟨_, _, _, decode_of_undetermined hextent⟩
  · exact nomatch h
  · rename_i size hextent
    split at h
    · exact nomatch h
    · rename_i hreach
      rw [Bytes.reaches_iff, Nat.not_le] at hreach
      exact ⟨_, _, _, decode_of_short hextent hreach⟩

/-- Where a framer waits, the decoder asks for more. -/
theorem Schema.cutShort_of_incomplete {schema : Schema} {offset : Nat} {data : Bytes}
    (h : schema.nextFrame offset data = .incomplete) : CutShort (schema.decodeFirst data) := by
  unfold nextFrame at h
  unfold decodeFirst
  cases hread : Header.read? data with
  | none => exact ⟨_, _, _, rfl⟩
  | some header =>
    cases hresolve : schema.resolveHeader header with
    | none => simp [hread, hresolve] at h
    | some resolved =>
      simp only [hread, hresolve] at h ⊢
      exact cutShort_map_iff.mpr (Codec.cutShort_of_incomplete h)

namespace Registry

variable {registry : Registry} {data : Bytes} {size : Nat}

theorem isRecord_of_frame {offset : Nat} {event : String} {body : Except CodecError Record}
    (h : registry.schema.nextFrame offset data = .whole event size body) :
    registry.isRecord (data.take size) := by
  obtain ⟨found, -, hdecode⟩ := Schema.decodeFirst_take h
  rw [isRecord, decodeFirst_fst, hdecode]
  cases body with
  | ok record => rfl
  | error error => exact Schema.isBodyError_of_nextFrame h

/-- The decoder does not look behind the frame. -/
theorem decodeFirst_of_frame {offset : Nat} {event : String} {body : Except CodecError Record}
    (h : registry.schema.nextFrame offset data = .whole event size body) :
    (registry.decodeFirst data).1 = (registry.decodeFirst (data.take size)).1 := by
  have hfront := isRecord_of_frame h
  rw [isRecord, decodeFirst_fst] at hfront
  have hsettled : ¬ CutShort (registry.schema.decodeFirst (data.take size)) := by
    rintro ⟨_, _, _, hshort⟩
    rw [hshort] at hfront
    exact nomatch hfront
  have hmore := Schema.decodeFirst_append hsettled (data.drop size)
  rw [List.take_append_drop] at hmore
  rw [decodeFirst_fst, decodeFirst_fst, hmore]

/-- **A record for the decoder is a whole frame**, anywhere in a stream. -/
theorem isRecord_iff (offset : Nat) :
    registry.isRecord data ↔
      ∃ event size body, registry.schema.nextFrame offset data = .whole event size body := by
  constructor
  · intro hrecord
    rw [isRecord, decodeFirst_fst] at hrecord
    cases hframe : registry.schema.nextFrame offset data with
    | incomplete =>
      obtain ⟨_, _, _, hshort⟩ := Schema.cutShort_of_incomplete hframe
      rw [hshort] at hrecord
      exact nomatch hrecord
    | unreadable error =>
      rcases Schema.decodeFirst_of_unreadable hframe with
        ⟨_, -, hdecode⟩ | ⟨_, _, _, -, hdecode⟩ <;>
      · rw [hdecode] at hrecord
        exact nomatch hrecord
    | whole event size body => exact ⟨event, size, body, rfl⟩
  · rintro ⟨event, size, body, hframe⟩
    have hfront := isRecord_of_frame hframe
    rw [isRecord] at hfront ⊢
    rwa [decodeFirst_of_frame hframe]

theorem frame_of_isRecord_take (offset : Nat) {fewer : Nat}
    (h : registry.isRecord (data.take fewer)) :
    ∃ event size body, registry.schema.nextFrame offset data = .whole event size body ∧
      size ≤ fewer := by
  obtain ⟨event, size, body, hframe⟩ := (isRecord_iff offset).mp h
  have hsize := (Schema.nextFrame_whole hframe).2
  have hsettled : registry.schema.nextFrame offset (data.take fewer) ≠ .incomplete := by
    simp [hframe]
  have hmore := Schema.nextFrame_append hsettled (data.drop fewer)
  rw [List.take_append_drop, hframe] at hmore
  rw [List.length_take] at hsize
  exact ⟨event, size, body, hmore, by omega⟩

/-- **Both ways cut alike.** -/
theorem recordSize?_eq_some_iff (offset : Nat) :
    registry.recordSize? data = some size ↔
      ∃ event body, registry.schema.nextFrame offset data = .whole event size body := by
  rw [recordSize?_spec]
  constructor
  · rintro ⟨hrecord, -, hleast⟩
    obtain ⟨event, other, body, hframe, hle⟩ := frame_of_isRecord_take offset hrecord
    rcases Nat.lt_or_eq_of_le hle with hlt | rfl
    · exact absurd (isRecord_of_frame hframe) (hleast other hlt)
    · exact ⟨event, body, hframe⟩
  · rintro ⟨event, body, hframe⟩
    refine ⟨isRecord_of_frame hframe, (Schema.nextFrame_whole hframe).2, ?_⟩
    intro fewer hfewer hrecord
    obtain ⟨_, other, _, hother, hle⟩ := frame_of_isRecord_take offset hrecord
    rw [hframe] at hother
    cases hother
    omega

/-- A record that can be decoded is as long as the decoder says. -/
theorem recordSize?_of_decodeFirst {first : Decoded}
    (h : (registry.decodeFirst data).1 = .ok first) :
    registry.recordSize? data = some first.size := by
  have hrecord : registry.isRecord data := by rw [isRecord, h]
  obtain ⟨event, size, body, hframe⟩ := (isRecord_iff 0).mp hrecord
  obtain ⟨found, -, hdecode⟩ := Schema.decodeFirst_take hframe
  rw [decodeFirst_of_frame hframe, decodeFirst_fst, hdecode, map_eq_ok_iff] at h
  obtain ⟨record, -, rfl⟩ := h
  exact (recordSize?_eq_some_iff 0).mpr ⟨event, body, hframe⟩

theorem records_of_frame {offset : Nat} {event : String} {body : Except CodecError Record}
    (h : registry.schema.nextFrame offset data = .whole event size body) :
    registry.records data = data.take size :: registry.records (data.drop size) :=
  records_of_some ((recordSize?_eq_some_iff offset).mpr ⟨event, body, h⟩)

/-- Where there is no whole frame, there is no record. -/
theorem records_eq_nil (offset : Nat)
    (h : ∀ event size body, registry.schema.nextFrame offset data ≠ .whole event size body) :
    registry.records data = [] := by
  cases hsize : registry.recordSize? data with
  | none => exact records_of_none hsize
  | some size =>
    obtain ⟨event, body, hframe⟩ := (recordSize?_eq_some_iff offset).mp hsize
    exact absurd hframe (h event size body)

end Registry

/-- **A walk cuts off the first records**, whatever follows, and the calls tell of
them. -/
theorem Schema.Reads.records {registry : Registry} {offset stop : Nat} {data rest : Bytes}
    {calls : List Call} (h : registry.schema.Reads offset data calls stop rest) :
    ∃ frames, data = frames.flatten ++ rest ∧ List.Forall₂ registry.Tells frames calls ∧
      ∀ more, registry.records (data ++ more) = frames ++ registry.records (rest ++ more) := by
  induction h with
  | stay => exact ⟨[], rfl, .nil, fun more => rfl⟩
  | @pass offset stop data rest event size body calls hframe _ ih =>
    obtain ⟨frames, hdata, htells, hrecords⟩ := ih
    have hsize := (Schema.nextFrame_whole hframe).2
    have hsettled : registry.schema.nextFrame offset data ≠ .incomplete := by simp [hframe]
    refine ⟨data.take size :: frames, ?_, .cons (Registry.tells_ofBody hframe) htells, ?_⟩
    · rw [List.flatten_cons, List.append_assoc, ← hdata, List.take_append_drop]
    · intro more
      have hmore := (Schema.nextFrame_append hsettled more).trans hframe
      rw [Registry.records_of_frame hmore, List.take_append_of_le_length hsize,
        List.drop_append_of_le_length hsize, hrecords, List.cons_append]

/-- A walk to where no whole frame follows cuts off all records. More bytes are
cut from there on. -/
theorem Schema.Reads.all_records {registry : Registry} {offset stop : Nat} {data rest : Bytes}
    {calls : List Call} (h : registry.schema.Reads offset data calls stop rest)
    (hend : ∀ event size body, registry.schema.nextFrame stop rest ≠ .whole event size body) :
    List.Forall₂ registry.Tells (registry.records data) calls ∧ registry.tail data = rest ∧
      ∀ more, registry.records (data ++ more) =
        registry.records data ++ registry.records (rest ++ more) := by
  obtain ⟨frames, hdata, htells, hrecords⟩ := h.records
  have hall : registry.records data = frames := by
    have hmore := hrecords []
    rwa [List.append_nil, List.append_nil, Registry.records_eq_nil stop hend,
      List.append_nil] at hmore
  rw [Registry.tail, hall]
  refine ⟨htells, ?_, hrecords⟩
  nth_rewrite 1 [hdata]
  exact List.drop_left

/-- A scan is a walk to where no whole frame follows. -/
theorem Schema.reads_scan (schema : Schema) (offset : Nat) (data : Bytes) :
    let scan := schema.scan offset data
    schema.Reads offset data scan.calls scan.offset scan.rest ∧
      schema.nextFrame scan.offset scan.rest = scan.error.elim .incomplete .unreadable := by
  fun_induction Schema.scan schema offset data with
  | case1 offset data hframe => exact ⟨.stay .., hframe⟩
  | case2 offset data error hframe => exact ⟨.stay .., hframe⟩
  | case3 offset data event size body hframe ih => exact ⟨.pass hframe ih.1, ih.2⟩

/-- **A scan cuts off all records.** -/
theorem Registry.tells_scan (registry : Registry) (offset : Nat) (data : Bytes) :
    List.Forall₂ registry.Tells (registry.records data) (registry.schema.scan offset data).calls ∧
      registry.tail data = (registry.schema.scan offset data).rest := by
  obtain ⟨hreads, hend⟩ := registry.schema.reads_scan offset data
  have hnone : ∀ event size body,
      registry.schema.nextFrame (registry.schema.scan offset data).offset
        (registry.schema.scan offset data).rest ≠ .whole event size body := by
    intro event size body
    rw [hend]
    cases (registry.schema.scan offset data).error <;> exact nofun
  obtain ⟨htells, htail, -⟩ := hreads.all_records hnone
  exact ⟨htells, htail⟩

/-- A record with a bad body is a record; an id that no event has begins none. -/
example :
    Framer.sayRegistry.records Framer.hostileStream =
      [Framer.hostileStream.take 11, (Framer.hostileStream.drop 11).take 10] ∧
      Framer.sayRegistry.tail Framer.hostileStream = [0x09, 0x07] := by cbv

end EventWire
