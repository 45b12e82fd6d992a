/-
EventWire.Proofs.ExactImage — every byte of an encoding.

An encoder need not put its output together from pieces. It can find the size
first, take a buffer of zeros, and write each part at its place
(`Codec.encodeInPlace`): the header at the front, each static field at the
offset of its slot, each dynamic field at a cursor that moves on. Whether that
is the same depends on the places. They are worked out in two passes, the
offsets when the codec is compiled and the size when the record is measured;
if these did not fit together there would be zeros left over, or a write past
the end.

They fit for every event, with its fields in any order
(`Codec.encodeInPlace_eq`). The buffer is seen as what has been written and
what has not, and each write moves the border between the two by its own
length (`Bytes.overwrite_append`).

`Codec.encode_exact` then says what the bytes are, in terms of the event and
of the record.
-/
import EventWire.Proofs.RoundTrip
import Mathlib

namespace EventWire

/-! ## Filling a buffer -/

/-- Why there is no record in the buffer. -/
inductive Fault where
  /-- The record has no encoding. -/
  | refused (error : CodecError)
  /-- A write went past the end. -/
  | outOfBounds

/-- Writes `content` over the bytes from `offset` on. -/
def Bytes.overwrite (buffer : Bytes) (offset : Nat) (content : Bytes) : Except Fault Bytes :=
  if offset + content.length ≤ buffer.length then
    .ok (buffer.take offset ++ content ++ buffer.drop (offset + content.length))
  else .error .outOfBounds

/-- **What is written next** lies behind what was written before, and covers as
many bytes as it has. -/
theorem Bytes.overwrite_append (front rest content : Bytes) {offset : Nat}
    (hoffset : front.length = offset) (h : content.length ≤ rest.length) :
    Bytes.overwrite (front ++ rest) offset content =
      .ok (front ++ content ++ rest.drop content.length) := by
  subst hoffset
  have hbounds : front.length + content.length ≤ (front ++ rest).length := by
    rw [List.length_append]
    omega
  rw [overwrite, if_pos hbounds, List.take_left, List.drop_length_add_append]

namespace Codec

section Filling

variable (codec : Codec) (record : Record)

/-- The header and the length of the record, written to a buffer of zeros. -/
def fillFront (size : Nat) : Except Fault Bytes := do
  let buffer ← Bytes.overwrite (List.replicate size 0) 0 (codec.layout.form.write codec.id)
  if codec.layout.isFixedSize then .ok buffer
  else
    Bytes.overwrite buffer codec.layout.headerWidth (lengthBytes (size - codec.layout.headerWidth))

/-- The static fields, each written at its slot. -/
def fillStatics : List StaticSlot → Bytes → Except Fault Bytes
  | [], buffer => .ok buffer
  | slot :: slots, buffer => do
    let v ← (codec.scalarOf record slot).mapError .refused
    let buffer ← Bytes.overwrite buffer slot.offset v.encode
    fillStatics slots buffer

/-- The dynamic fields, one after the other from `cursor` on; also tells where
they end. -/
def fillDynamics : List DynamicSlot → (cursor : Nat) → Bytes → Except Fault (Bytes × Nat)
  | [], cursor, buffer => .ok (buffer, cursor)
  | slot :: slots, cursor, buffer => do
    let content ← (codec.blobOf record slot).mapError .refused
    let buffer ← Bytes.overwrite buffer cursor (lengthBytes content.length)
    let buffer ← Bytes.overwrite buffer (cursor + lengthWidth) content
    fillDynamics slots (cursor + lengthWidth + content.length) buffer

/-- The bytes of a record, written into a buffer of their size, and where the
last of them was written. -/
def encodeInPlace : Except Fault (Bytes × Nat) := do
  let size ← (codec.encodedLength record).mapError .refused
  let buffer ← codec.fillFront size
  let buffer ← codec.fillStatics record codec.statics buffer
  codec.fillDynamics record codec.dynamics codec.layout.dynamicOffset buffer

end Filling

variable {codec : Codec} {record : Record}

/-- What lies before the fields in a record of the given size. -/
def front (codec : Codec) (size : Nat) : Bytes :=
  codec.layout.form.write codec.id ++
    if codec.layout.isFixedSize then [] else lengthBytes (size - codec.layout.headerWidth)

theorem length_front (codec : Codec) (size : Nat) :
    (codec.front size).length = codec.layout.staticOffset := by
  rw [front, Layout.staticOffset, List.length_append, HeaderForm.length_write]
  cases codec.layout.isFixedSize with
  | true => rfl
  | false => simp [length_lengthBytes, Layout.headerWidth]

theorem headerWidth_le_staticOffset (layout : Layout) :
    layout.headerWidth ≤ layout.staticOffset := by
  rw [Layout.staticOffset]
  split <;> omega

theorem fillFront_eq (codec : Codec) {size : Nat} (h : codec.layout.staticOffset ≤ size) :
    codec.fillFront size =
      .ok (codec.front size ++ List.replicate (size - codec.layout.staticOffset) 0) := by
  have hwidth : (codec.layout.form.write codec.id).length = codec.layout.headerWidth :=
    HeaderForm.length_write ..
  have hreach := (headerWidth_le_staticOffset codec.layout).trans h
  have hheader := Bytes.overwrite_append [] (List.replicate size 0)
    (codec.layout.form.write codec.id) List.length_nil (by
      rw [hwidth, List.length_replicate]; exact hreach)
  rw [List.nil_append, List.nil_append, List.drop_replicate, hwidth] at hheader
  rw [fillFront, hheader, front]
  simp only [bind, Except.bind]
  rw [Layout.staticOffset] at h ⊢
  split
  · rw [List.append_nil]
  · rename_i hdynamic
    rw [if_neg hdynamic] at h
    rw [Bytes.overwrite_append _ _ _ hwidth (by
        rw [length_lengthBytes, List.length_replicate]; omega),
      List.drop_replicate, length_lengthBytes, Nat.sub_sub]

theorem type_of_scalarOf {slot : StaticSlot} {v : Scalar}
    (h : codec.scalarOf record slot = .ok v) : v.type = slot.type := by
  obtain ⟨given, -, hsent⟩ := scalarOf_eq_ok_iff.mp h
  exact FieldType.scalar.inj hsent.type_eq

theorem types_of_scalarsOf {slots : List StaticSlot} {scalars : List Scalar}
    (h : slots.mapM (codec.scalarOf record) = .ok scalars) :
    scalars.map Scalar.type = slots.map StaticSlot.type := by
  rw [mapM_eq_ok_iff] at h
  induction h with
  | nil => rfl
  | cons hscalar _ ih => rw [List.map_cons, List.map_cons, type_of_scalarOf hscalar, ih]

/-- **Slots in a row** are written as one piece, whatever was there before. -/
theorem fillStatics_eq (codec : Codec) (record : Record) {slots : List StaticSlot}
    {start stop : Nat} (h : StaticSlot.Tile start slots stop) (front rest : Bytes)
    (hfront : front.length = start) (hrest : stop ≤ start + rest.length) :
    codec.fillStatics record slots (front ++ rest) =
      ((slots.mapM (codec.scalarOf record)).map fun scalars =>
        front ++ scalars.flatMap Scalar.encode ++ rest.drop (stop - start)).mapError .refused := by
  induction slots generalizing start front rest with
  | nil =>
    cases h
    simp [fillStatics, pure, Except.pure, Except.map, Except.mapError]
  | cons slot slots ih =>
    obtain ⟨hoffset, htail⟩ := h
    have hstop := htail.start_le_stop
    rw [fillStatics, List.mapM_cons]
    cases hscalar : codec.scalarOf record slot with
    | error error => rfl
    | ok v =>
      have hwidth : v.encode.length = slot.type.width := by
        rw [Scalar.length_encode, type_of_scalarOf hscalar]
      have hwritten := Bytes.overwrite_append front rest v.encode (hfront.trans hoffset.symm)
        (by omega)
      -- The border between what is written and what is not has moved behind the slot.
      have hnext : (front ++ v.encode).length = start + slot.type.width := by
        rw [List.length_append, hfront, hwidth]
      have hlater := ih htail (front ++ v.encode) (rest.drop v.encode.length) hnext (by
        rw [List.length_drop]; omega)
      have hdrop : v.encode.length + (stop - (start + slot.type.width)) = stop - start := by omega
      simp only [Except.mapError, bind, Except.bind, hwritten, hlater]
      cases slots.mapM (codec.scalarOf record) with
      | error error => rfl
      | ok scalars =>
        simp only [pure, Except.pure, Except.map, List.flatMap_cons, List.append_assoc,
          List.drop_drop, hdrop]

/-- **Dynamic fields** fill the rest of a buffer that is as long as they are. -/
theorem fillDynamics_eq {slots : List DynamicSlot} {contents : List Bytes} {cursor : Nat}
    (h : slots.mapM (codec.blobOf record) = .ok contents) (front rest : Bytes)
    (hfront : front.length = cursor)
    (hrest : rest.length =
      (contents.flatMap fun content => lengthBytes content.length ++ content).length) :
    codec.fillDynamics record slots cursor (front ++ rest) =
      .ok (front ++ contents.flatMap (fun content => lengthBytes content.length ++ content),
        cursor + rest.length) := by
  rw [mapM_eq_ok_iff] at h
  induction h generalizing cursor front rest with
  | nil =>
    obtain rfl := List.eq_nil_of_length_eq_zero hrest
    simp [fillDynamics]
  | @cons slot content slots contents hcontent _ ih =>
    simp only [List.flatMap_cons, List.length_append, length_lengthBytes] at hrest
    have hlength := Bytes.overwrite_append front rest (lengthBytes content.length) hfront
      (by rw [length_lengthBytes]; omega)
    have hafter : (front ++ lengthBytes content.length).length = cursor + lengthWidth := by
      rw [List.length_append, hfront, length_lengthBytes]
    have hbody := Bytes.overwrite_append (front ++ lengthBytes content.length)
      (rest.drop (lengthBytes content.length).length) content hafter
      (by rw [List.length_drop, length_lengthBytes]; omega)
    have hnext : (front ++ lengthBytes content.length ++ content).length =
        cursor + lengthWidth + content.length := by
      rw [List.length_append, hafter]
    have hlater := ih (front ++ lengthBytes content.length ++ content)
      ((rest.drop (lengthBytes content.length).length).drop content.length) hnext
      (by simp only [List.length_drop, length_lengthBytes]; omega)
    rw [fillDynamics, hcontent]
    simp only [Except.mapError, bind, Except.bind, hlength, hbody, hlater]
    simp only [List.length_drop, length_lengthBytes, List.flatMap_cons, List.append_assoc,
      Except.ok.injEq, Prod.mk.injEq, true_and]
    omega

/-- What the measuring pass has found out when it has not failed. -/
theorem exists_contents_of_encodedLength (hplaced : codec.Placed) {size : Nat}
    (h : codec.encodedLength record = .ok size) :
    ∃ contents, codec.dynamics.mapM (codec.blobOf record) = .ok contents ∧
      size = codec.layout.dynamicOffset +
        (contents.flatMap fun content => lengthBytes content.length ++ content).length ∧
      (codec.layout.isFixedSize = false → size - codec.layout.headerWidth ≤ maxLength) := by
  have hdynamics := hplaced.dynamics
  unfold encodedLength Layout.fixedSize? at h
  cases hfixed : codec.layout.isFixedSize with
  | true =>
    have hcount : codec.layout.dynamicCount = 0 := by simpa [Layout.isFixedSize] using hfixed
    rw [hcount] at hdynamics
    rw [List.eq_nil_of_length_eq_zero hdynamics]
    refine ⟨[], rfl, ?_, by simp⟩
    rw [hfixed] at h
    cases h
    simp [Layout.dynamicOffset, Layout.staticOffset, hfixed]
  | false =>
    rw [hfixed] at h
    simp only [Bool.false_eq_true, if_false, bind_eq_ok_iff] at h
    obtain ⟨contents, hcontents, hsize⟩ := h
    refine ⟨contents, hcontents, ?_⟩
    have hcount := (mapM_eq_ok_iff.mp hcontents).length_eq
    rw [length_flatMap_lengthBytes, ← hcount, hdynamics]
    split at hsize
    · cases hsize
    · cases hsize
      have hportion : codec.layout.fixedPortion =
          codec.layout.dynamicOffset + codec.layout.dynamicCount * lengthWidth := rfl
      exact ⟨by omega, fun _ => by omega⟩

/-- All parts of a record together have the size that was measured. -/
theorem length_parts (hplaced : codec.Placed) {size : Nat} {scalars : List Scalar}
    {contents : List Bytes} (hscalars : codec.statics.mapM (codec.scalarOf record) = .ok scalars)
    (hsize : size = codec.layout.dynamicOffset +
      (contents.flatMap fun content => lengthBytes content.length ++ content).length) :
    (codec.front size ++ scalars.flatMap Scalar.encode).length = codec.layout.dynamicOffset ∧
      (codec.front size ++ scalars.flatMap Scalar.encode ++
        contents.flatMap fun content => lengthBytes content.length ++ content).length = size := by
  have hstatics := hplaced.statics.length_encode (types_of_scalarsOf hscalars)
  rw [← length_front codec size, ← List.length_append] at hstatics
  exact ⟨hstatics, by rw [List.length_append, hstatics, hsize]⟩

/-- **Filling a buffer is encoding.** The result is the same, also if it is an
error; no write goes past the end, and the last one ends there. -/
theorem encodeInPlace_eq (hplaced : codec.Placed) (record : Record) :
    codec.encodeInPlace record =
      ((codec.encode record).map fun bytes => (bytes, bytes.length)).mapError .refused := by
  unfold encodeInPlace encode
  cases hsize : codec.encodedLength record with
  | error error => rfl
  | ok size =>
    -- The measuring pass has been through the dynamic fields, which cannot fail any more.
    obtain ⟨contents, hcontents, hlength, -⟩ := exists_contents_of_encodedLength hplaced hsize
    have hstatics := hplaced.statics
    have hoffset := hstatics.start_le_stop
    have hopened := codec.fillFront_eq (show codec.layout.staticOffset ≤ size by omega)
    have hfilled := codec.fillStatics_eq record hstatics (codec.front size)
      (List.replicate (size - codec.layout.staticOffset) 0) (codec.length_front size)
      (by rw [List.length_replicate]; omega)
    simp only [bind, Except.bind, Except.mapError, hopened, hfilled]
    cases hscalars : codec.statics.mapM (codec.scalarOf record) with
    | error error => rfl
    | ok scalars =>
      obtain ⟨hwritten, hwhole⟩ := length_parts hplaced hscalars hlength
      have hclosed := fillDynamics_eq hcontents
        (codec.front size ++ scalars.flatMap Scalar.encode)
        ((List.replicate (size - codec.layout.staticOffset) 0).drop
          (codec.layout.dynamicOffset - codec.layout.staticOffset)) hwritten
        (by rw [List.length_drop, List.length_replicate]; omega)
      simp only [Except.map, hcontents, hclosed, Except.ok.injEq, Prod.mk.injEq]
      refine ⟨rfl, ?_⟩
      rw [front] at hwhole
      rw [hwhole, List.length_drop, List.length_replicate]
      omega

end Codec

/-! ## Numbers -/

theorem BigEndian.capacity_eq_pow (width : Nat) : capacity width = 256 ^ width := by
  induction width with
  | zero => rfl
  | succ width ih => rw [capacity, ih, Nat.pow_succ, Nat.mul_comm]

/-- The bytes of a number, most significant first; two's complement, if it is
negative. -/
def numberBytes (width : Nat) (n : Int) : Bytes :=
  BigEndian.encode width (n % 256 ^ width).toNat

theorem toNat_emod_pow {width n : Nat} (h : n < BigEndian.capacity width) :
    ((n : Int) % 256 ^ width).toNat = n := by
  rw [BigEndian.capacity_eq_pow] at h
  have hcast : (256 : Int) ^ width = (256 ^ width : Nat) := (Int.natCast_pow 256 width).symm
  rw [hcast, ← Int.natCast_emod, Int.toNat_natCast, Nat.mod_eq_of_lt h]

theorem emod_toInt {width : Nat} (x : BitVec width) : x.toInt % (2 ^ width : Nat) = x.toNat := by
  rw [BitVec.toInt_eq_toNat_bmod, Int.bmod_emod, ← Int.natCast_emod, Nat.mod_eq_of_lt x.isLt]

namespace Scalar

/-- The number that stands for a scalar: an integer itself, or the bit pattern of
a float. -/
def number : Scalar → Int
  | byte v => v.toNat
  | int16 v => v.toInt
  | int32 v => v.toInt
  | float32 v => v.bits.toNat
  | float64 v => v.bits.toNat

theorem bits_eq_number (v : Scalar) : v.bits = (v.number % 256 ^ v.type.width).toNat := by
  cases v with
  | byte v => exact (toNat_emod_pow (byte v).bits_lt).symm
  | int16 v => exact (congrArg Int.toNat (emod_toInt v.toBitVec)).symm
  | int32 v => exact (congrArg Int.toNat (emod_toInt v.toBitVec)).symm
  | float32 v => exact (toNat_emod_pow (float32 v).bits_lt).symm
  | float64 v => exact (toNat_emod_pow (float64 v).bits_lt).symm

theorem encode_eq_numberBytes (v : Scalar) : v.encode = numberBytes v.type.width v.number := by
  rw [encode, numberBytes, bits_eq_number]

end Scalar

/-! ## What is written -/

namespace Event

/-- The bytes of an event's id. -/
def headerBytes (event : Event) : Bytes :=
  if event.id ≤ 254 then [event.id.toUInt8] else 0xff :: BigEndian.encode 4 event.id.toNat

/-- The width of the static fields together. -/
def staticWidth (event : Event) : Nat := (event.staticFields.filterMap (·.type.width?)).sum

theorem write_ofId (event : Event) :
    (HeaderForm.ofId event.id).write event.id = event.headerBytes := by
  rw [headerBytes, HeaderForm.ofId, maxCompactId]
  by_cases h : event.id ≤ 254
  · rw [if_pos h, if_neg (UInt32.not_lt.mpr h)]
    rfl
  · rw [if_neg h, if_pos (UInt32.not_le.mp h)]
    rfl

theorem headerWidth_ofEvent (event : Event) :
    (Layout.ofEvent event).headerWidth = event.headerBytes.length := by
  rw [← write_ofId, HeaderForm.length_write]
  rfl

theorem isFixedSize_ofEvent (event : Event) :
    (Layout.ofEvent event).isFixedSize = !event.hasDynamicFields := by
  rw [Bool.eq_iff_iff]
  simp [Layout.isFixedSize, Layout.ofEvent, dynamicFields, hasDynamicFields]

theorem staticWidth_ofEvent (event : Event) :
    (Layout.ofEvent event).staticWidth = event.staticWidth := by
  rw [Layout.ofEvent, staticWidth, staticFields]
  dsimp only
  induction event.fields with
  | nil => rfl
  | cons field fields ih =>
    obtain ⟨name, type⟩ := field
    cases type <;> simpa [FieldType.width?, FieldType.isStatic] using ih

theorem dynamicOffset_ofEvent (event : Event) :
    (Layout.ofEvent event).dynamicOffset =
      event.headerBytes.length + (if event.hasDynamicFields then 4 else 0) + event.staticWidth := by
  rw [Layout.dynamicOffset, Layout.staticOffset, isFixedSize_ofEvent, headerWidth_ofEvent,
    staticWidth_ofEvent]
  cases event.hasDynamicFields <;> rfl

/-- Some bytes spell a record of the event, whose static fields hold `numbers`
and whose dynamic fields hold `contents`. -/
structure Spells (event : Event) (record : Record) (numbers : List Scalar) (contents : List Bytes)
    (bytes : Bytes) : Prop where
  holdNumbers : List.Forall₂ (fun (field : Field) v => field.type = .scalar v.type ∧
    record.get? field.name = some (.scalar v)) event.staticFields numbers
  holdContents : List.Forall₂ (fun (field : Field) content => ∃ value, value.type = field.type ∧
    record.get? field.name = some value ∧ value.toBytes? = some content)
    event.dynamicFields contents
  /-- All that is written: the id, the length of what follows it if there are
  dynamic fields, the numbers, and the contents with their lengths. -/
  parts : bytes = event.headerBytes ++
    (if event.hasDynamicFields then BigEndian.encode 4 (bytes.length - event.headerBytes.length)
      else []) ++
    numbers.flatMap (fun v => numberBytes v.type.width v.number) ++
    contents.flatMap fun content => BigEndian.encode 4 content.length ++ content
  length : bytes.length = event.headerBytes.length + (if event.hasDynamicFields then 4 else 0) +
    event.staticWidth + (contents.map fun content => 4 + content.length).sum
  /-- No length is too large for its four bytes. -/
  declarable : (event.hasDynamicFields → bytes.length - event.headerBytes.length < 2 ^ 32) ∧
    ∀ content ∈ contents, content.length < 2 ^ 32

end Event

namespace Codec

variable {event : Event} {record : Record} {bytes : Bytes}

theorem front_compile (event : Event) (size : Nat) :
    (compile event true).front size = event.headerBytes ++
      if event.hasDynamicFields then lengthBytes (size - event.headerBytes.length) else [] := by
  show (HeaderForm.ofId event.id).write event.id ++ (if (Layout.ofEvent event).isFixedSize then []
    else lengthBytes (size - (Layout.ofEvent event).headerWidth)) = _
  rw [event.write_ofId, event.isFixedSize_ofEvent, event.headerWidth_ofEvent]
  cases event.hasDynamicFields <;> rfl

theorem numbers_of_scalarsOf {scalars : List Scalar}
    (h : (compile event true).statics.mapM ((compile event true).scalarOf record) = .ok scalars) :
    List.Forall₂ (fun (field : Field) v => field.type = .scalar v.type ∧
      record.get? field.name = some (.scalar v)) event.staticFields scalars := by
  rw [← map_field_statics event true, List.forall₂_map_left_iff]
  refine (mapM_eq_ok_iff.mp h).imp ?_
  intro slot v hscalar
  obtain ⟨given, hgiven, hsent⟩ := scalarOf_eq_ok_iff.mp hscalar
  obtain rfl := hsent.eq_of_type_eq hsent.given_type_eq
  exact ⟨hsent.given_type_eq.symm, hgiven⟩

theorem contents_of_blobsOf {contents : List Bytes}
    (h : (compile event true).dynamics.mapM ((compile event true).blobOf record) = .ok contents) :
    List.Forall₂ (fun (field : Field) content => ∃ value, value.type = field.type ∧
      record.get? field.name = some value ∧ value.toBytes? = some content)
      event.dynamicFields contents := by
  rw [← map_field_dynamics event true, List.forall₂_map_left_iff]
  refine (mapM_eq_ok_iff.mp h).imp ?_
  intro slot content hblob
  obtain ⟨given, sent, hgiven, hsent, rfl, -⟩ := blobOf_eq_ok_iff.mp hblob
  have htype := hsent.given_type_eq
  obtain rfl := hsent.eq_of_type_eq htype
  exact ⟨sent, htype, hgiven, Value.toBytes?_of_blob htype⟩

theorem lt_of_le_maxLength {n : Nat} (h : n ≤ maxLength) : n < 2 ^ 32 := by
  rw [maxLength, UInt32.size] at h
  omega

theorem length_le_of_blobsOf {codec : Codec} {contents : List Bytes}
    (h : codec.dynamics.mapM (codec.blobOf record) = .ok contents) :
    ∀ content ∈ contents, content.length ≤ maxLength := by
  obtain ⟨blobs, -, hshort, rfl⟩ := blobsOf_iff.mp (mapM_eq_ok_iff.mp h)
  intro content hcontent
  obtain ⟨value, hvalue, rfl⟩ := List.mem_map.mp hcontent
  exact hshort value hvalue

theorem fixedSize?_of_encodedLength {codec : Codec} {size : Nat}
    (hfixed : codec.layout.isFixedSize = true) (h : codec.encodedLength record = .ok size) :
    codec.layout.fixedSize? = some size := by
  rw [encodedLength, Layout.fixedSize?, if_pos hfixed] at h
  rw [Layout.fixedSize?, if_pos hfixed, Except.ok.inj h]

theorem spells_of_parts {numbers : List Scalar} {contents : List Bytes}
    (hnumbers : (compile event true).statics.mapM ((compile event true).scalarOf record) =
      .ok numbers)
    (hcontents : (compile event true).dynamics.mapM ((compile event true).blobOf record) =
      .ok contents)
    (hparts : bytes = (compile event true).front bytes.length ++ numbers.flatMap Scalar.encode ++
      contents.flatMap fun content => lengthBytes content.length ++ content)
    (hlength : bytes.length = (compile event true).layout.dynamicOffset +
      (contents.flatMap fun content => lengthBytes content.length ++ content).length)
    (hroom : event.hasDynamicFields → bytes.length - event.headerBytes.length ≤ maxLength) :
    event.Spells record numbers contents bytes where
  holdNumbers := numbers_of_scalarsOf hnumbers
  holdContents := contents_of_blobsOf hcontents
  parts := by
    rw [front_compile] at hparts
    simp only [← Scalar.encode_eq_numberBytes]
    exact hparts
  length := by
    refine hlength.trans (congrArg₂ (· + ·) event.dynamicOffset_ofEvent ?_)
    simp [List.length_flatMap, length_lengthBytes, lengthWidth]
  declarable := by
    refine ⟨fun hdynamic => lt_of_le_maxLength (hroom hdynamic), ?_⟩
    intro content hcontent
    exact lt_of_le_maxLength (length_le_of_blobsOf hcontents content hcontent)

/-- **Every byte of an encoding**, with types checked, for any event: the parts
are those of `Event.Spells`, the size is what was measured before, and it is the
fixed size of the event where there is one. The same bytes come of filling a
buffer of that size, up to its end. -/
theorem encode_exact (h : (compile event true).encode record = .ok bytes) :
    ∃ numbers contents, event.Spells record numbers contents bytes ∧
      (compile event true).encodedLength record = .ok bytes.length ∧
      (event.hasDynamicFields = false →
        (compile event true).layout.fixedSize? = some bytes.length) ∧
      (compile event true).encodeInPlace record = .ok (bytes, bytes.length) := by
  have hplaced := placed_compile event true
  have hfilled := encodeInPlace_eq hplaced record
  rw [h] at hfilled
  simp only [encode, bind_eq_ok_iff, Except.ok.injEq] at h
  obtain ⟨size, hsize, numbers, hnumbers, contents, hcontents, hbytes⟩ := h
  obtain ⟨measured, hmeasured, hlength, hroom⟩ := exists_contents_of_encodedLength hplaced hsize
  obtain rfl : measured = contents := Except.ok.inj (hmeasured.symm.trans hcontents)
  obtain rfl : bytes.length = size := by
    rw [← hbytes]
    exact (length_parts hplaced hnumbers hlength).2
  have hfixed : (compile event true).layout.isFixedSize = !event.hasDynamicFields :=
    event.isFixedSize_ofEvent
  have hwidth : (compile event true).layout.headerWidth = event.headerBytes.length :=
    event.headerWidth_ofEvent
  rw [hwidth] at hroom
  have hspells : event.Spells record numbers measured bytes :=
    spells_of_parts hnumbers hcontents hbytes.symm hlength fun hdynamic =>
      hroom (by rw [hfixed, hdynamic]; rfl)
  refine ⟨numbers, measured, hspells, hsize, ?_, hfilled⟩
  intro hstatic
  exact fixedSize?_of_encodedLength (by rw [hfixed, hstatic]; rfl) hsize

/-- Dynamic fields are given before a static one here, and one of them twice. -/
theorem encode_exact_unsorted :
    (compile unsortedEvent true).encode unsortedRecord = .ok unsortedBytes ∧
      (∃ numbers contents, unsortedEvent.Spells unsortedRecord numbers contents unsortedBytes) ∧
      (compile unsortedEvent true).encodeInPlace unsortedRecord = .ok (unsortedBytes, 29) := by
  have h : (compile unsortedEvent true).encode unsortedRecord = .ok unsortedBytes := rfl
  obtain ⟨numbers, contents, hspells, -, -, hfilled⟩ := encode_exact h
  exact ⟨h, ⟨numbers, contents, hspells⟩, hfilled⟩

end Codec

end EventWire
