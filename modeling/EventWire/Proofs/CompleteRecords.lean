/-
EventWire.Proofs.CompleteRecords — what is said of a record that is all there.

Once the bytes of a record have arrived, and its length leaves room for what
every record of the event has, there is an answer that asks for nothing more.
It depends on the bytes behind the static fields alone, the body. A record is
read if these are segments, one for each dynamic field, up to the end of the
record: a length and that many bytes, which are a text where the field holds
one. Otherwise the first field where this fails is blamed (`Field.Breaks`);
bytes that are left over are noticed last (`Event.Refuses`).

One step decides one field: its segment is broken, or there is one and the
next field begins behind it (`Field.breaks_or_segment`). From this a body is
made of segments or is refused (`segments_or_refuses`), and the decoder, which
takes the same steps, says which of the two (`Codec.decode_complete`).
-/
import EventWire.Proofs.ExactImage
import EventWire.Proofs.PrefixStability
import EventWire.Proofs.TextPrefix
import Mathlib

namespace EventWire

/-! ## Bodies -/

/-- A content as it lies on the wire, behind its length. -/
def segment (content : Bytes) : Bytes := BigEndian.encode 4 content.length ++ content

/-- One content after the other. -/
def segments (contents : List Bytes) : Bytes := contents.flatMap segment

theorem segments_cons (content : Bytes) (contents : List Bytes) :
    segments (content :: contents) = segment content ++ segments contents := rfl

theorem length_segment (content : Bytes) :
    (segment content).length = lengthWidth + content.length := by
  rw [segment, List.length_append, BigEndian.length_encode]
  rfl

/-- A length with as many bytes behind it is the start of a segment. -/
theorem exists_segment {rest : Bytes} (h : 4 + BigEndian.decode (rest.take 4) ≤ rest.length) :
    ∃ content later, content.length < 2 ^ 32 ∧ rest = segment content ++ later := by
  have hfour : (rest.take 4).length = lengthWidth := by
    rw [List.length_take, Nat.min_eq_left (by omega)]
    rfl
  have hlength : ((rest.drop 4).take (BigEndian.decode (rest.take 4))).length =
      BigEndian.decode (rest.take 4) := by
    rw [List.length_take, List.length_drop]
    omega
  refine ⟨(rest.drop 4).take (BigEndian.decode (rest.take 4)),
    (rest.drop 4).drop (BigEndian.decode (rest.take 4)), ?_, ?_⟩
  · rw [hlength]
    exact Codec.lt_of_le_maxLength (Codec.decode_le_maxLength hfour)
  · have hprefix := Codec.lengthBytes_decode hfour
    rw [Codec.lengthBytes, lengthWidth] at hprefix
    rw [segment, hlength, hprefix, List.append_assoc, List.take_append_drop,
      List.take_append_drop]

namespace Field

/-- The content can be that of a field: its length can be declared, and it is a
text if the field holds one. -/
def Accepts (field : Field) (content : Bytes) : Prop :=
  content.length < 2 ^ 32 ∧ (field.type = .blob .string → Utf8.IsText content)

/-- A field whose segment is to begin at `cursor` has none there: `rest` is what
lies from there to the end of the record, at `size`. -/
inductive Breaks (event : String) (size cursor : Nat) (field : Field) (rest : Bytes) :
    CodecError → Prop
  | lengthCut (h : rest.length < 4) :
      Breaks event size cursor field rest
        (.malformed event s!"length prefix of '{field.name}' runs past record end {size}")
  | contentCut {n : Nat} (h : 4 ≤ rest.length) (hlength : n = BigEndian.decode (rest.take 4))
      (hcut : rest.length < 4 + n) :
      Breaks event size cursor field rest
        (.malformed event
          s!"field '{field.name}' declares {n} bytes at offset {cursor + 4}, record ends at {size}")
  | noText {content later : Bytes} {valid : Nat} (htype : field.type = .blob .string)
      (hsegment : rest = segment content ++ later) (hlength : content.length < 2 ^ 32)
      (hbad : ¬ Utf8.IsText content)
      (hvalid : IsGreatest {n | n ≤ content.length ∧ Utf8.IsText (content.take n)} valid) :
      Breaks event size cursor field rest (.invalidUtf8 event field.name valid)

/-- **One field**: its segment is broken, or it is there. -/
theorem breaks_or_segment (event : String) (size cursor : Nat) (field : Field) (rest : Bytes) :
    (∃ error, field.Breaks event size cursor rest error) ∨
      ∃ content later, field.Accepts content ∧ rest = segment content ++ later := by
  by_cases hprefix : rest.length < 4
  · exact .inl ⟨_, .lengthCut hprefix⟩
  by_cases hcut : rest.length < 4 + BigEndian.decode (rest.take 4)
  · exact .inl ⟨_, .contentCut (Nat.not_lt.mp hprefix) rfl hcut⟩
  obtain ⟨content, later, hshort, hsegment⟩ := exists_segment (Nat.not_lt.mp hcut)
  by_cases htext : field.type = .blob .string → Utf8.IsText content
  · exact .inr ⟨content, later, ⟨hshort, htext⟩, hsegment⟩
  · obtain ⟨htype, hbad⟩ := Classical.not_imp.mp htext
    exact .inl ⟨_, .noText htype hsegment hshort hbad (Utf8.isGreatest_validUpTo content)⟩

end Field

/-- Why a body that begins at `start` is not one of the fields: the first of
them without a segment, or else the bytes that are left over. -/
inductive Refuses (event : String) (size start : Nat) (fields : List Field) (body : Bytes) :
    CodecError → Prop
  | field {passed later : List Field} {field : Field} {contents : List Bytes} {rest : Bytes}
      {error : CodecError} (hfields : fields = passed ++ field :: later)
      (hpassed : List.Forall₂ Field.Accepts passed contents)
      (hbody : body = segments contents ++ rest)
      (hbreaks : field.Breaks event size (start + (segments contents).length) rest error) :
      Refuses event size start fields body error
  | leftOver {contents : List Bytes} {rest : Bytes}
      (hpassed : List.Forall₂ Field.Accepts fields contents)
      (hbody : body = segments contents ++ rest) (hrest : rest ≠ []) :
      Refuses event size start fields body
        (.malformed event
          s!"fields end at {start + (segments contents).length} but record length is {size}")

theorem Refuses.cons {event : String} {size start : Nat} {field : Field} {fields : List Field}
    {content body : Bytes} {error : CodecError} (hcontent : field.Accepts content)
    (h : Refuses event size (start + (segment content).length) fields body error) :
    Refuses event size start (field :: fields) (segment content ++ body) error := by
  have hend (contents : List Bytes) :
      start + (segment content).length + (segments contents).length =
        start + (segments (content :: contents)).length := by
    rw [segments_cons, List.length_append, Nat.add_assoc]
  cases h with
  | field hfields hpassed hbody hbreaks =>
    subst hfields hbody
    rw [hend] at hbreaks
    rw [← List.append_assoc]
    exact .field rfl (.cons hcontent hpassed) rfl hbreaks
  | leftOver hpassed hbody hrest =>
    subst hbody
    rw [hend, ← List.append_assoc]
    exact .leftOver (.cons hcontent hpassed) rfl hrest

/-- **A body** is made of segments, or it is refused. -/
theorem segments_or_refuses (event : String) (size : Nat) (fields : List Field) (start : Nat)
    (body : Bytes) :
    (∃ contents, List.Forall₂ Field.Accepts fields contents ∧ body = segments contents) ∨
      ∃ error, Refuses event size start fields body error := by
  induction fields generalizing start body with
  | nil =>
    cases body with
    | nil => exact .inl ⟨[], .nil, rfl⟩
    | cons b body => exact .inr ⟨_, .leftOver .nil rfl (List.cons_ne_nil b body)⟩
  | cons field fields ih =>
    rcases field.breaks_or_segment event size start body with
      ⟨error, hbreaks⟩ | ⟨content, rest, hcontent, rfl⟩
    · exact .inr ⟨error, .field (List.nil_append _).symm .nil rfl hbreaks⟩
    · rcases ih (start + (segment content).length) rest with
        ⟨contents, hcontents, rfl⟩ | ⟨error, hrefuses⟩
      · exact .inl ⟨content :: contents, .cons hcontent hcontents, rfl⟩
      · exact .inr ⟨error, hrefuses.cons hcontent⟩

/-! ## Reading a body -/

namespace Codec

variable (codec : Codec) (size cursor : Nat) (slots : List DynamicSlot) (record : Record)

section Steps

variable {slot : DynamicSlot} {content : Bytes}

theorem exists_readBlob (h : slot.field.Accepts content) :
    ∃ value, codec.readBlob slot content = .ok value := by
  obtain ⟨name, type⟩ := slot
  cases type with
  | bytes => exact ⟨.bytes content, rfl⟩
  | string =>
    obtain ⟨text, rfl⟩ := h.2 rfl
    exact ⟨.string text, by simp [readBlob]⟩

theorem readBlob_of_not_isText (htype : slot.field.type = .blob .string)
    (hbad : ¬ Utf8.IsText content) :
    codec.readBlob slot content =
      .error (.invalidUtf8 codec.name slot.name (Utf8.validUpTo content)) := by
  rw [← Utf8.isSome_decode?_iff, Option.not_isSome_iff_eq_none] at hbad
  rw [readBlob, FieldType.blob.inj htype]
  simp only [hbad]

/-- Where there is a segment, its content is read, and the next field begins
behind it. -/
theorem readDynamics_segment (rest : Bytes) (hshort : content.length < 2 ^ 32) :
    codec.readDynamics size (slot :: slots) cursor (segment content ++ rest) record =
      codec.readBlob slot content >>= fun value =>
        codec.readDynamics size slots (cursor + (segment content).length) rest
          (record.insert slot.name value) := by
  rw [length_segment, ← Nat.add_assoc]
  exact readDynamics_cons rest record (Nat.le_of_lt_succ hshort)

/-- A broken segment is the answer. -/
theorem readDynamics_of_breaks {rest : Bytes} {error : CodecError}
    (h : slot.field.Breaks codec.name size cursor rest error) :
    codec.readDynamics size (slot :: slots) cursor rest record = .error error := by
  cases h with
  | lengthCut hcut =>
    have hreach : ¬ Bytes.reaches rest lengthWidth := by
      rw [Bytes.reaches_iff]
      exact Nat.not_le.mpr hcut
    rw [readDynamics, if_neg hreach]
    rfl
  | contentCut hfour hlength hcut =>
    subst hlength
    have hreach : Bytes.reaches rest lengthWidth := Bytes.reaches_iff.mpr hfour
    have hreach' : ¬ Bytes.reaches (rest.drop lengthWidth)
        (BigEndian.decode (rest.take lengthWidth)) := by
      rw [Bytes.reaches_iff, List.length_drop, lengthWidth]
      omega
    rw [readDynamics, if_pos hreach]
    simp only [if_neg hreach']
    rfl
  | @noText content later valid htype hsegment hlength hbad hvalid =>
    subst hsegment
    obtain rfl := (Utf8.isGreatest_validUpTo content).unique hvalid
    rw [readDynamics_segment codec size cursor slots record later hlength,
      readBlob_of_not_isText codec htype hbad]
    rfl

end Steps

/-- Where there are segments for some fields, the next one begins behind them. -/
theorem readDynamics_segments {passed : List DynamicSlot} {contents : List Bytes}
    (h : List.Forall₂ Field.Accepts (passed.map DynamicSlot.field) contents) (rest : Bytes) :
    ∃ filled, codec.readDynamics size (passed ++ slots) cursor (segments contents ++ rest) record =
      codec.readDynamics size slots (cursor + (segments contents).length) rest filled := by
  induction passed generalizing contents cursor record with
  | nil =>
    obtain rfl := List.forall₂_nil_left_iff.mp h
    exact ⟨record, rfl⟩
  | cons slot passed ih =>
    obtain ⟨content, contents, hcontent, hcontents, rfl⟩ := List.forall₂_cons_left_iff.mp h
    obtain ⟨value, hread⟩ := exists_readBlob codec hcontent
    obtain ⟨filled, hlater⟩ := ih (cursor + (segment content).length)
      (record.insert slot.name value) hcontents
    refine ⟨filled, ?_⟩
    rw [List.cons_append, segments_cons, List.append_assoc,
      readDynamics_segment codec size cursor (passed ++ slots) record _ hcontent.1, hread,
      List.length_append, ← Nat.add_assoc, ← hlater]
    rfl

theorem readDynamics_of_refuses {body : Bytes} {error : CodecError}
    (h : Refuses codec.name size cursor (slots.map DynamicSlot.field) body error) :
    codec.readDynamics size slots cursor body record = .error error := by
  cases h with
  | field hfields hpassed hbody hbreaks =>
    subst hbody
    obtain ⟨passed, later, rfl, rfl, hlater⟩ := List.map_eq_append_iff.mp hfields
    obtain ⟨slot, later, rfl, rfl, rfl⟩ := List.map_eq_cons_iff.mp hlater
    obtain ⟨filled, hstep⟩ :=
      readDynamics_segments codec size cursor (slot :: later) record hpassed _
    rw [hstep, readDynamics_of_breaks codec size _ later filled hbreaks]
  | @leftOver contents rest hpassed hbody hrest =>
    subst hbody
    obtain ⟨filled, hstep⟩ := readDynamics_segments codec size cursor [] record hpassed rest
    rw [List.append_nil] at hstep
    rw [hstep, readDynamics, if_neg (by simpa using hrest)]

theorem exists_readDynamics {contents : List Bytes}
    (h : List.Forall₂ Field.Accepts (slots.map DynamicSlot.field) contents) :
    ∃ filled, codec.readDynamics size slots cursor (segments contents) record = .ok filled := by
  obtain ⟨filled, hstep⟩ := readDynamics_segments codec size cursor [] record h []
  rw [List.append_nil, List.append_nil] at hstep
  exact ⟨filled, hstep⟩

/-- **Reading a body** answers with a record or with what the body is refused
for. -/
theorem readDynamics_cases (body : Bytes) :
    ((∃ filled, codec.readDynamics size slots cursor body record = .ok filled) ↔
        ∃ contents, List.Forall₂ Field.Accepts (slots.map DynamicSlot.field) contents ∧
          body = segments contents) ∧
      ∀ error, codec.readDynamics size slots cursor body record = .error error ↔
        Refuses codec.name size cursor (slots.map DynamicSlot.field) body error := by
  rcases segments_or_refuses codec.name size (slots.map DynamicSlot.field) cursor body with
    ⟨contents, hcontents, rfl⟩ | ⟨error, hrefuses⟩
  · obtain ⟨filled, hfilled⟩ := exists_readDynamics codec size cursor slots record hcontents
    refine ⟨iff_of_true ⟨filled, hfilled⟩ ⟨contents, hcontents, rfl⟩, fun error => ?_⟩
    refine iff_of_false (by simp [hfilled]) fun hrefuses => ?_
    rw [readDynamics_of_refuses codec size cursor slots record hrefuses] at hfilled
    exact nomatch hfilled
  · have herror := readDynamics_of_refuses codec size cursor slots record hrefuses
    refine ⟨iff_of_false (by simp [herror]) ?_, fun other => ⟨fun hother => ?_, ?_⟩⟩
    · rintro ⟨contents, hcontents, rfl⟩
      obtain ⟨filled, hfilled⟩ := exists_readDynamics codec size cursor slots record hcontents
      rw [herror] at hfilled
      exact nomatch hfilled
    · rw [herror] at hother
      exact Except.error.inj hother ▸ hrefuses
    · exact readDynamics_of_refuses codec size cursor slots record

end Codec

/-! ## Complete records -/

namespace Event

/-- The length that a record of the event declares. -/
def declaredLength (event : Event) (data : Bytes) : Nat :=
  BigEndian.decode (data.slice event.headerBytes.length 4)

/-- The size of the record at the start of `data`. -/
def recordSize (event : Event) (data : Bytes) : Nat :=
  event.headerBytes.length +
    if event.hasDynamicFields then event.declaredLength data else event.staticWidth

/-- Where the static fields of a record end. -/
def bodyStart (event : Event) : Nat :=
  event.headerBytes.length + (if event.hasDynamicFields then 4 else 0) + event.staticWidth

/-- What lies behind the static fields of the record at the start of `data`. -/
def body (event : Event) (data : Bytes) : Bytes :=
  (data.take (event.recordSize data)).drop event.bodyStart

/-- All of a record is there. If it declares its length, this has room for what
every record of the event has. -/
structure Complete (event : Event) (data : Bytes) : Prop where
  declared : event.hasDynamicFields → event.headerBytes.length + 4 ≤ data.length ∧
    4 + event.staticWidth + 4 * event.dynamicFields.length ≤ event.declaredLength data
  present : event.recordSize data ≤ data.length

end Event

namespace Codec

variable {event : Event} {typecheck : Bool} {data : Bytes}

theorem declared_compile : (compile event typecheck).declared data = event.declaredLength data := by
  rw [declared, layout_compile, event.headerWidth_ofEvent]
  rfl

theorem dynamicOffset_compile :
    (compile event typecheck).layout.dynamicOffset = event.bodyStart :=
  event.dynamicOffset_ofEvent

/-- A complete record is known to end where it does. -/
theorem extent_of_complete (h : event.Complete data) (typecheck : Bool) :
    (compile event typecheck).extent data = .known (event.recordSize data) := by
  rw [extent_eq_known_iff, declared_compile, layout_compile, event.isFixedSize_ofEvent,
    event.headerWidth_ofEvent, event.staticWidth_ofEvent, Event.recordSize]
  cases hdynamic : event.hasDynamicFields with
  | false => simp
  | true =>
    -- the fixed portion is the least that the layout lets a record declare
    obtain ⟨hreach, hroom⟩ := h.declared hdynamic
    have hwidth := event.headerWidth_ofEvent
    have hoffset := event.dynamicOffset_ofEvent
    have hstatic := event.staticWidth_ofEvent
    have hcount : (Layout.ofEvent event).dynamicCount = event.dynamicFields.length := rfl
    simp only [hdynamic, if_true, Layout.dynamicOffset] at hoffset
    simp only [Layout.minDeclared, Layout.fixedPortion, Layout.dynamicOffset, lengthWidth,
      Bool.not_true, Bool.false_eq_true, if_false, if_true]
    exact ⟨by omega, by omega, trivial⟩

theorem decode_of_complete (h : event.Complete data) (typecheck : Bool) :
    (compile event typecheck).decode data =
      ((compile event typecheck).readDynamics (event.recordSize data)
        (compile event typecheck).dynamics event.bodyStart (event.body data)
        ((compile event typecheck).readStatics (data.take (event.recordSize data)))).map
          (·, event.recordSize data) := by
  rw [decode_of_known (extent_of_complete h typecheck) h.present, decodeWhole,
    dynamicOffset_compile, List.length_take, Nat.min_eq_left h.present]
  rfl

/-- **The answer to a complete record** is the record if the body is made of
segments that the dynamic fields accept, and otherwise what the first field
that has none is refused with, or that something is left over. It never is
that bytes are missing, or that the length is too small. -/
theorem decode_complete (event : Event) (typecheck : Bool) {data : Bytes}
    (h : event.Complete data) :
    let answer := (compile event typecheck).decode data
    ((∃ result, answer = .ok result) ↔
        ∃ contents, List.Forall₂ Field.Accepts event.dynamicFields contents ∧
          event.body data = segments contents) ∧
      (∀ error, answer = .error error ↔
        Refuses event.name (event.recordSize data) event.bodyStart event.dynamicFields
          (event.body data) error) ∧
      (∀ record size, answer = .ok (record, size) → size = event.recordSize data) ∧
      (∀ name need got, answer ≠ .error (.truncated name need got)) ∧
      ∀ name declared reason, answer ≠ .error (.invalidLength name declared reason) := by
  intro answer
  have hanswer : answer = _ := decode_of_complete h typecheck
  obtain ⟨hread, hrefused⟩ := readDynamics_cases (compile event typecheck)
    (event.recordSize data) event.bodyStart (compile event typecheck).dynamics
    ((compile event typecheck).readStatics (data.take (event.recordSize data))) (event.body data)
  rw [map_field_dynamics] at hread hrefused
  have herror (error : CodecError) : answer = .error error ↔
      Refuses event.name (event.recordSize data) event.bodyStart event.dynamicFields
        (event.body data) error := by
    rw [hanswer, map_eq_error_iff]
    exact hrefused error
  refine ⟨?_, herror, ?_, ?_, ?_⟩
  · rw [hanswer, ← hread]
    simp [map_eq_ok_iff]
  · intro record size hok
    rw [hanswer, map_eq_ok_iff] at hok
    obtain ⟨filled, -, hpair⟩ := hok
    exact (Prod.mk.inj hpair).2.symm
  · intro name need got htruncated
    cases (herror _).mp htruncated with
    | field _ _ _ hbreaks => cases hbreaks
  · intro name declared reason hinvalid
    cases (herror _).mp hinvalid with
    | field _ _ _ hbreaks => cases hbreaks

/-- An event with three dynamic fields. -/
def chunkEvent : Event :=
  ⟨1, "chunk",
    [⟨"id", .scalar .int16⟩, ⟨"data", .blob .bytes⟩, ⟨"name", .blob .string⟩,
      ⟨"note", .blob .string⟩]⟩

/-- A record whose second dynamic field is cut in the middle of a character, and
whose third has half a length. -/
def chunkBytes : Bytes :=
  [0x01, 0x00, 0x00, 0x00, 0x13, 0x00, 0x07, 0x00, 0x00, 0x00, 0x01, 0xff, 0x00, 0x00, 0x00, 0x02,
    0x68, 0xc3, 0x00, 0x00, 0x2a]

theorem decode_complete_chunk :
    chunkEvent.Complete chunkBytes ∧
      (compile chunkEvent true).decode chunkBytes = .error (.invalidUtf8 "chunk" "name" 1) ∧
      Refuses "chunk" 20 7 chunkEvent.dynamicFields (chunkEvent.body chunkBytes)
        (.invalidUtf8 "chunk" "name" 1) := by
  have h : chunkEvent.Complete chunkBytes := ⟨by decide, by decide⟩
  have hdecode : (compile chunkEvent true).decode chunkBytes =
      .error (.invalidUtf8 "chunk" "name" 1) := by cbv
  obtain ⟨-, hrefused, -⟩ := decode_complete chunkEvent true h
  exact ⟨h, hdecode, (hrefused _).mp hdecode⟩

end Codec

end EventWire
