/-
EventWire.Proofs.Scan — what a stream says, without anyone to hear it.

`Schema.scan` walks over a stream once and notes what a consumer is to be
told (`Call`), why reading stopped and what is left. It depends on nothing
but the schema and the bytes: which codecs a registry remembers, what the
consumer makes of a record and where the stream was cut have no place in
it.

* `Schema.nextFrame_append` — once it is settled what lies at the front of
  a buffer, more bytes do not change it.
* `Schema.scan_append` — hence a scan can be left off at any byte and taken
  up again from its rest.

The first is where the cuts matter: a header, a length or a body may be cut
short, and then the frame is incomplete and nothing has been decided.
-/
import EventWire.Framer
import EventWire.Proofs.RegistrySchema

namespace EventWire

/-! ## The frame at the front -/

/-- What lies at the front of `data`, which starts at `offset` in the
stream. -/
def Schema.nextFrame (schema : Schema) (offset : Nat) (data : Bytes) : Frame :=
  match Header.read? data with
  | none => .incomplete
  | some header =>
    match schema.resolveHeader header with
    | none => .unreadable (.unknownPacket header.id offset)
    | some (_, codec) => codec.nextFrame data

namespace Registry

theorem nextFrame_fst (registry : Registry) (offset : Nat) (data : Bytes) :
    (registry.nextFrame offset data).1 = registry.schema.nextFrame offset data := by
  unfold nextFrame Schema.nextFrame
  cases Header.read? data with
  | none => rfl
  | some header =>
    have hcodec := codecOfHeader?_fst registry header
    dsimp only
    rcases hfound : registry.codecOfHeader? header with ⟨found, after⟩
    rw [hfound] at hcodec
    cases hresolved : registry.schema.resolveHeader header with
    | none =>
      rw [hresolved] at hcodec
      cases hcodec
      rfl
    | some resolved =>
      rw [hresolved] at hcodec
      cases hcodec
      rfl

theorem schema_nextFrame (registry : Registry) (offset : Nat) (data : Bytes) :
    (registry.nextFrame offset data).2.schema = registry.schema := by
  unfold nextFrame
  cases Header.read? data with
  | none => rfl
  | some header =>
    have hafter := schema_codecOfHeader? registry header
    dsimp only
    rcases hfound : registry.codecOfHeader? header with ⟨found, after⟩
    rw [hfound] at hafter
    cases found <;> exact hafter

/-- A registry frames a buffer as its schema does, and keeps the schema. -/
theorem nextFrame_eq {registry after : Registry} {offset : Nat} {data : Bytes} {frame : Frame}
    (h : registry.nextFrame offset data = (frame, after)) :
    registry.schema.nextFrame offset data = frame ∧ after.schema = registry.schema := by
  rw [← nextFrame_fst, ← schema_nextFrame registry offset data, h]
  exact ⟨rfl, rfl⟩

end Registry

theorem Header.read?_append {data : Bytes} {header : Header} (h : read? data = some header)
    (more : Bytes) : read? (data ++ more) = some header := by
  cases data with
  | nil => cases h
  | cons first rest =>
    simp only [read?, List.cons_append] at h ⊢
    split
    · rename_i hmarker
      rw [if_pos hmarker] at h
      split at h
      · rename_i hreach
        have hfour : 4 ≤ rest.length := Bytes.reaches_iff.mp hreach
        have hreach' : Bytes.reaches (rest ++ more) 4 := by
          rw [Bytes.reaches_iff, List.length_append]
          omega
        rw [if_pos hreach', List.take_append_of_le_length hfour]
        exact h
      · cases h
    · rename_i hcompact
      rw [if_neg hcompact] at h
      exact h

namespace Codec

variable {codec : Codec} {data : Bytes}

theorem declared_append (h : codec.layout.headerWidth + lengthWidth ≤ data.length)
    (more : Bytes) : codec.declared (data ++ more) = codec.declared data := by
  rw [declared, declared, Bytes.slice_append h]

/-- What is known of a record's size, or known to be wrong with it, does not
change with more bytes. -/
theorem extent_append (h : codec.extent data ≠ .undetermined) (more : Bytes) :
    codec.extent (data ++ more) = codec.extent data := by
  unfold extent at h ⊢
  cases hfixed : codec.layout.fixedSize? with
  | some size => rfl
  | none =>
    simp only [hfixed] at h ⊢
    by_cases hreach : Bytes.reaches data codec.layout.staticOffset
    · have hlength := Bytes.reaches_iff.mp hreach
      have hreach' : Bytes.reaches (data ++ more) codec.layout.staticOffset := by
        rw [Bytes.reaches_iff, List.length_append]
        omega
      have hoffset : codec.layout.staticOffset = codec.layout.headerWidth + lengthWidth := by
        have hvaries : ¬ codec.layout.isFixedSize := by
          intro hsize
          simp [Layout.fixedSize?, hsize] at hfixed
        rw [Layout.staticOffset, if_neg hvaries]
      rw [if_pos hreach, if_pos hreach', declared_append (hoffset ▸ hlength)]
    · rw [if_neg hreach] at h
      exact absurd rfl h

theorem nextFrame_of_known {size : Nat} (h : codec.extent data = .known size)
    (hsize : size ≤ data.length) :
    codec.nextFrame data = .whole codec.name size (codec.decodeWhole (data.take size)) := by
  unfold nextFrame
  rw [h]
  exact if_pos (Bytes.reaches_iff.mpr hsize)

theorem nextFrame_append (h : codec.nextFrame data ≠ .incomplete) (more : Bytes) :
    codec.nextFrame (data ++ more) = codec.nextFrame data := by
  have hsettled : codec.extent data ≠ .undetermined := by
    intro hextent
    exact h (by simp only [nextFrame, hextent])
  have hmore := extent_append hsettled more
  cases hextent : codec.extent data with
  | undetermined => exact absurd hextent hsettled
  | refused error => rw [nextFrame, nextFrame, hmore, hextent]
  | known size =>
    rw [hextent] at hmore
    by_cases hsize : size ≤ data.length
    · have hsize' : size ≤ (data ++ more).length := by
        rw [List.length_append]
        omega
      rw [nextFrame_of_known hextent hsize, nextFrame_of_known hmore hsize',
        List.take_append_of_le_length hsize]
    · have hreach : ¬ Bytes.reaches data size := by
        rw [Bytes.reaches_iff]
        exact hsize
      exact absurd (by simp only [nextFrame, hextent, if_neg hreach]) h

/-- A whole record takes at least one byte, and only bytes that are there. -/
theorem nextFrame_whole {event : String} {size : Nat} {body : Except CodecError Record}
    (h : codec.nextFrame data = .whole event size body) : 0 < size ∧ size ≤ data.length := by
  unfold nextFrame at h
  split at h
  · exact nomatch h
  · exact nomatch h
  · rename_i known hextent
    split at h
    · rename_i hreach
      cases h
      exact ⟨pos_of_extent_known hextent, Bytes.reaches_iff.mp hreach⟩
    · exact nomatch h

theorem isFatal_of_extent {error : CodecError} (h : codec.extent data = .refused error) :
    error.isFatal := by
  unfold extent at h
  split at h
  · exact nomatch h
  · split at h
    · split at h
      · exact nomatch h
      · rename_i refusal hlength
        cases h
        unfold Layout.recordLength at hlength
        split at hlength
        · cases hlength
          rfl
        · exact nomatch hlength
    · exact nomatch h

theorem isFatal_of_nextFrame {error : CodecError} (h : codec.nextFrame data = .unreadable error) :
    error.isFatal := by
  unfold nextFrame at h
  split at h
  · exact nomatch h
  · rename_i refusal hextent
    cases h
    exact isFatal_of_extent hextent
  · split at h <;> exact nomatch h

end Codec

namespace Schema

variable {schema : Schema} {offset : Nat} {data : Bytes}

/-- **Frames do not change with more bytes** once it is settled what they
are. -/
theorem nextFrame_append (h : schema.nextFrame offset data ≠ .incomplete) (more : Bytes) :
    schema.nextFrame offset (data ++ more) = schema.nextFrame offset data := by
  unfold nextFrame at h ⊢
  cases hread : Header.read? data with
  | none => exact absurd (by simp [hread]) h
  | some header =>
    rw [Header.read?_append hread more]
    cases hresolved : schema.resolveHeader header with
    | none => simp only [hresolved]
    | some resolved =>
      simp only [hread, hresolved] at h ⊢
      exact Codec.nextFrame_append h more

theorem nextFrame_whole {event : String} {size : Nat} {body : Except CodecError Record}
    (h : schema.nextFrame offset data = .whole event size body) :
    0 < size ∧ size ≤ data.length := by
  unfold nextFrame at h
  split at h
  · exact nomatch h
  · split at h
    · exact nomatch h
    · exact Codec.nextFrame_whole h

theorem isFatal_of_nextFrame {error : CodecError}
    (h : schema.nextFrame offset data = .unreadable error) : error.isFatal := by
  unfold nextFrame at h
  split at h
  · exact nomatch h
  · split at h
    · cases h
      rfl
    · exact Codec.isFatal_of_nextFrame h

end Schema

/-! ## Scanning a stream -/

/-- What a consumer is told. -/
inductive Call where
  | consume (event : String) (record : Record)
  | reject (error : CodecError)

namespace Call

/-- What is told of a whole record. -/
def ofBody (event : String) : Except CodecError Record → Call
  | .ok record => consume event record
  | .error error => reject error

def isConsume : Call → Bool
  | consume .. => true
  | reject _ => false

end Call

/-- What has been read of a stream. -/
structure Scan where
  calls : List Call
  /-- Why nothing more can be read, if so. -/
  error : Option CodecError
  /-- Where the rest starts in the stream. -/
  offset : Nat
  rest : Bytes

namespace Scan

/-- A scan that has told something else before. -/
def after (calls : List Call) (scan : Scan) : Scan := { scan with calls := calls ++ scan.calls }

/-- The number of records to be consumed. -/
def delivered (scan : Scan) : Nat := scan.calls.countP Call.isConsume

@[simp] theorem delivered_after (calls : List Call) (scan : Scan) :
    (scan.after calls).delivered = calls.countP Call.isConsume + scan.delivered := by
  simp [delivered, after]

end Scan

namespace Schema

/-- What can be read of `data`, which starts at `offset` in the stream. -/
def scan (schema : Schema) (offset : Nat) (data : Bytes) : Scan :=
  match _h : schema.nextFrame offset data with
  | .incomplete => ⟨[], none, offset, data⟩
  | .unreadable error => ⟨[], some error, offset, data⟩
  | .whole event size body =>
    (schema.scan (offset + size) (data.drop size)).after [.ofBody event body]
termination_by data.length
decreasing_by
  have := nextFrame_whole _h
  simp only [List.length_drop]
  omega

variable {schema : Schema} {offset : Nat} {data : Bytes}

theorem scan_incomplete (h : schema.nextFrame offset data = .incomplete) :
    schema.scan offset data = ⟨[], none, offset, data⟩ := by
  rw [scan]
  split <;> simp_all

theorem scan_unreadable {error : CodecError}
    (h : schema.nextFrame offset data = .unreadable error) :
    schema.scan offset data = ⟨[], some error, offset, data⟩ := by
  rw [scan]
  split <;> simp_all

theorem scan_whole {event : String} {size : Nat} {body : Except CodecError Record}
    (h : schema.nextFrame offset data = .whole event size body) :
    schema.scan offset data =
      (schema.scan (offset + size) (data.drop size)).after [.ofBody event body] := by
  rw [scan]
  split <;> simp_all

/-- A scan stops for good only where the stream cannot be read any
further. -/
theorem isFatal_of_scan {error : CodecError} (h : (schema.scan offset data).error = some error) :
    error.isFatal := by
  fun_induction scan schema offset data with
  | case1 => exact nomatch h
  | case2 offset data cause hframe =>
    cases h
    exact isFatal_of_nextFrame hframe
  | case3 offset data event size body hframe ih => exact ih h

/-- What a scan does with bytes that follow those it has read. -/
def resume (schema : Schema) (scan : Scan) (more : Bytes) : Scan :=
  match scan.error with
  | some _ => { scan with rest := scan.rest ++ more }
  | none => (schema.scan scan.offset (scan.rest ++ more)).after scan.calls

/-- **A stream may be cut anywhere.** To scan it is to scan its beginning,
and to go on from what that has left. -/
theorem scan_append (schema : Schema) (offset : Nat) (data more : Bytes) :
    schema.scan offset (data ++ more) = schema.resume (schema.scan offset data) more := by
  fun_induction scan schema offset data with
  | case1 offset data hframe => rfl
  | case2 offset data error hframe =>
    have hsettled : schema.nextFrame offset data ≠ .incomplete := by simp [hframe]
    exact scan_unreadable ((nextFrame_append hsettled more).trans hframe)
  | case3 offset data event size body hframe ih =>
    have hsettled : schema.nextFrame offset data ≠ .incomplete := by simp [hframe]
    have hsize := (nextFrame_whole hframe).2
    rw [scan_whole ((nextFrame_append hsettled more).trans hframe),
      List.drop_append_of_le_length hsize, ih]
    unfold resume
    cases herror : (schema.scan (offset + size) (data.drop size)).error with
    | some error => simp [Scan.after, herror]
    | none => simp [Scan.after, herror]

/-- A stream that cannot be read any further says no more. -/
theorem scan_append_of_error {error : CodecError}
    (h : (schema.scan offset data).error = some error) (more : Bytes) :
    schema.scan offset (data ++ more) =
      { schema.scan offset data with rest := (schema.scan offset data).rest ++ more } := by
  simp only [scan_append, resume, h]

theorem scan_error_of_append {more : Bytes}
    (h : (schema.scan offset (data ++ more)).error = none) :
    (schema.scan offset data).error = none := by
  cases herror : (schema.scan offset data).error with
  | none => rfl
  | some error =>
    rw [scan_append_of_error herror, herror] at h
    exact h

theorem scan_append_of_none (h : (schema.scan offset data).error = none) (more : Bytes) :
    schema.scan offset (data ++ more) =
      (schema.scan (schema.scan offset data).offset
        ((schema.scan offset data).rest ++ more)).after (schema.scan offset data).calls := by
  rw [scan_append, resume, h]

end Schema

end EventWire
