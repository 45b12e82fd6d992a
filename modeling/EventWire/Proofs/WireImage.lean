/-
EventWire.Proofs.WireImage — the bytes of a record as one concatenation,
and the two ways through a codec stated in terms of it.

    header | declared length, if some field is dynamic | values, one by one

* `Codec.payload` — everything after the header, for a list of values.
* `Codec.assemble` — the record that has these values.
* `Codec.Sends` — the values that the fields send for a record.
* `Codec.Fits` — values of the right types, with room to declare their
  length.

`encode_eq_ok_iff` and `decode_eq_ok_iff` say that the encoder writes, and
the decoder accepts, exactly such images. Offsets, slots, cursors and the
separate measuring pass appear in their proofs and nowhere else: later
modules reason about lists of values.

Both need the slots to lie where the layout says (`Codec.Placed`), which
compiling sees to for every event, with its fields in any order
(`placed_compile`).
-/
import EventWire.Proofs.FieldImage

namespace EventWire

/-! ## Lists -/

/-- What goes with two lists in a row is two lists in a row. -/
theorem forall₂_append_left_iff {α β : Type} {R : α → β → Prop} {xs xs' : List α} {ys : List β} :
    List.Forall₂ R (xs ++ xs') ys ↔
      ∃ zs zs', List.Forall₂ R xs zs ∧ List.Forall₂ R xs' zs' ∧ ys = zs ++ zs' := by
  constructor
  · intro h
    induction xs generalizing ys with
    | nil => exact ⟨[], ys, .nil, h, rfl⟩
    | cons x xs ih =>
      obtain ⟨y, ys, hy, hys, rfl⟩ := List.forall₂_cons_left_iff.mp h
      obtain ⟨zs, zs', hzs, hzs', rfl⟩ := ih hys
      exact ⟨y :: zs, zs', .cons hy hzs, hzs', rfl⟩
  · rintro ⟨zs, zs', hzs, hzs', rfl⟩
    exact List.rel_append hzs hzs'

/-! ## Whole records -/

/-- The field that a slot belongs to. -/
def StaticSlot.field (slot : StaticSlot) : Field := ⟨slot.name, .scalar slot.type⟩

/-- The field that a slot belongs to. -/
def DynamicSlot.field (slot : DynamicSlot) : Field := ⟨slot.name, .blob slot.type⟩

namespace Codec

/-- The fields, in the order in which their values lie on the wire. -/
def fields (codec : Codec) : List Field :=
  codec.statics.map (fun slot => ⟨slot.name, .scalar slot.type⟩) ++
    codec.dynamics.map (fun slot => ⟨slot.name, .blob slot.type⟩)

/-- The declared length of a record of the given values: it counts itself
and the values. -/
def declaration (codec : Codec) (values : List Value) : Bytes :=
  if codec.layout.isFixedSize then []
  else lengthBytes (lengthWidth + (values.flatMap Value.wire).length)

/-- What follows the header in a record of the given values. -/
def payload (codec : Codec) (values : List Value) : Bytes :=
  codec.declaration values ++ values.flatMap Value.wire

/-- The record of the given values under the fields' names. -/
def assemble (codec : Codec) (values : List Value) : Record :=
  .ofList ((codec.fields.map Field.name).zip values)

/-- A value of its type for every field, and room to declare the length
where one is declared. -/
structure Fits (codec : Codec) (values : List Value) : Prop where
  types : values.map Value.type = codec.fields.map Field.type
  length : codec.layout.isFixedSize = false →
    lengthWidth + (values.flatMap Value.wire).length ≤ maxLength

/-- The values are those that the fields send for what a record holds. -/
def Sends (codec : Codec) (record : Record) (values : List Value) : Prop :=
  List.Forall₂ (fun (field : Field) sent => ∃ given, record.get? field.name = some given ∧
    Value.SentAs codec.typecheck field.type given sent) codec.fields values

/-- The slots lie as the layout says. -/
structure Placed (codec : Codec) : Prop where
  statics : StaticSlot.Tile codec.layout.staticOffset codec.statics codec.layout.dynamicOffset
  dynamics : codec.dynamics.length = codec.layout.dynamicCount

theorem tile_placeStatics (offset : Nat) (fields : List Field) :
    StaticSlot.Tile offset (placeStatics offset fields)
      (offset + (fields.map (·.type.width?.getD 0)).foldr (· + ·) 0) := by
  induction fields generalizing offset with
  | nil => rfl
  | cons field fields ih =>
    obtain ⟨name, type⟩ := field
    cases type with
    | scalar type =>
      refine ⟨rfl, ?_⟩
      simp only [List.map_cons, List.foldr_cons, FieldType.width?, Option.getD_some,
        ← Nat.add_assoc]
      exact ih _
    | blob type =>
      simp only [placeStatics, List.map_cons, List.foldr_cons, FieldType.width?,
        Option.getD_none, Nat.zero_add]
      exact ih _

theorem map_placeStatics (offset : Nat) (fields : List Field) :
    (placeStatics offset fields).map (fun slot => Field.mk slot.name (.scalar slot.type)) =
      fields.filter (·.type.isStatic) := by
  induction fields generalizing offset with
  | nil => rfl
  | cons field fields ih =>
    obtain ⟨name, type⟩ := field
    cases type <;> simp [placeStatics, FieldType.isStatic, ih]

theorem map_dynamicSlots (fields : List Field) :
    (dynamicSlots fields).map (fun slot => Field.mk slot.name (.blob slot.type)) =
      fields.filter (·.type.isDynamic) := by
  induction fields with
  | nil => rfl
  | cons field fields ih =>
    obtain ⟨name, type⟩ := field
    cases type <;> simpa [dynamicSlots, FieldType.isDynamic, FieldType.isStatic] using ih

/-- Each static field has a slot, in the event's order. -/
theorem map_field_statics (event : Event) (typecheck : Bool) :
    (compile event typecheck).statics.map StaticSlot.field = event.staticFields :=
  map_placeStatics ..

/-- Each dynamic field has a slot, in the event's order. -/
theorem map_field_dynamics (event : Event) (typecheck : Bool) :
    (compile event typecheck).dynamics.map DynamicSlot.field = event.dynamicFields :=
  map_dynamicSlots _

/-- On the wire the static fields come first, then the dynamic ones, each
group in the event's order. -/
theorem fields_compile (event : Event) (typecheck : Bool) :
    (compile event typecheck).fields = event.staticFields ++ event.dynamicFields := by
  rw [← map_field_statics event typecheck, ← map_field_dynamics event typecheck]
  rfl

theorem fields_compile_perm (event : Event) (typecheck : Bool) :
    (compile event typecheck).fields.Perm event.fields := by
  rw [fields_compile]
  exact List.filter_append_perm _ event.fields

/-- Compiling places the slots, whatever the order of the fields. -/
theorem placed_compile (event : Event) (typecheck : Bool) : (compile event typecheck).Placed where
  statics := tile_placeStatics ..
  dynamics := by
    have := congrArg List.length (map_dynamicSlots event.fields)
    rwa [List.length_map] at this

theorem layout_compile (event : Event) (typecheck : Bool) :
    (compile event typecheck).layout = .ofEvent event := rfl

/-- Values of scalar types are scalars. -/
theorem exists_scalars_of_types {slots : List StaticSlot} {values : List Value}
    (h : values.map Value.type = slots.map fun slot => .scalar slot.type) :
    ∃ scalars : List Scalar, values = scalars.map Value.scalar ∧
      scalars.map Scalar.type = slots.map StaticSlot.type := by
  induction slots generalizing values with
  | nil =>
    rw [List.map_nil, List.map_eq_nil_iff] at h
    exact ⟨[], h, rfl⟩
  | cons slot slots ih =>
    obtain ⟨value, values, rfl, hv, hvs⟩ := List.map_eq_cons_iff.mp h
    obtain ⟨scalars, rfl, htypes⟩ := ih hvs
    cases value with
    | scalar v =>
      refine ⟨v :: scalars, rfl, ?_⟩
      rw [List.map_cons, htypes, FieldType.scalar.inj hv, List.map_cons]
    | string s => exact nomatch hv
    | bytes bs => exact nomatch hv

/-- Values of the fields' types are scalars for the static fields, then
values with a length for the dynamic ones. -/
theorem exists_split {codec : Codec} {values : List Value}
    (h : values.map Value.type = codec.fields.map Field.type) :
    ∃ (scalars : List Scalar) (blobs : List Value), values = scalars.map Value.scalar ++ blobs ∧
      scalars.map Scalar.type = codec.statics.map StaticSlot.type ∧
      blobs.map Value.type = codec.dynamics.map fun slot => .blob slot.type := by
  rw [fields, List.map_append, List.map_map, List.map_map, List.map_eq_append_iff] at h
  obtain ⟨front, blobs, rfl, hfront, hblobs⟩ := h
  obtain ⟨scalars, rfl, hscalars⟩ := exists_scalars_of_types hfront
  exact ⟨scalars, blobs, rfl, hscalars, hblobs⟩

/-- One scalar for each static field is the split of the values. -/
theorem types_of_split {codec : Codec} {scalars : List Scalar} {blobs : List Value}
    (h : (scalars.map Value.scalar ++ blobs).map Value.type = codec.fields.map Field.type)
    (hcount : codec.statics.length = scalars.length) :
    scalars.map Scalar.type = codec.statics.map StaticSlot.type ∧
      blobs.map Value.type = codec.dynamics.map fun slot => .blob slot.type := by
  obtain ⟨scalars', blobs', hvalues, hscalars, hblobs⟩ := exists_split h
  have hcount' : scalars'.length = codec.statics.length := by
    simpa using congrArg List.length hscalars
  obtain ⟨hfront, rfl⟩ := List.append_inj hvalues (by simp [hcount, hcount'])
  have hsame : scalars = scalars' :=
    List.map_injective_iff.mpr (fun _ _ h => Value.scalar.inj h) hfront
  subst hsame
  exact ⟨hscalars, hblobs⟩

theorem flatMap_wire_scalars (scalars : List Scalar) :
    (scalars.map Value.scalar).flatMap Value.wire = scalars.flatMap Scalar.encode := by
  rw [List.flatMap_map]
  rfl

theorem flatMap_wire_blobs {slots : List DynamicSlot} {blobs : List Value}
    (h : blobs.map Value.type = slots.map fun slot => .blob slot.type) :
    blobs.flatMap Value.wire =
      (blobs.map Value.content).flatMap fun content => lengthBytes content.length ++ content := by
  induction slots generalizing blobs with
  | nil =>
    rw [List.map_nil, List.map_eq_nil_iff] at h
    subst h
    rfl
  | cons slot slots ih =>
    obtain ⟨value, values, rfl, hv, hvs⟩ := List.map_eq_cons_iff.mp h
    rw [List.flatMap_cons, Value.wire_of_blob hv, ih hvs]
    rfl

theorem length_flatMap_lengthBytes (contents : List Bytes) :
    (contents.flatMap fun content => lengthBytes content.length ++ content).length =
      contents.length * lengthWidth + contents.flatten.length := by
  induction contents with
  | nil => rfl
  | cons content contents ih =>
    simp only [List.flatMap_cons, List.length_append, length_lengthBytes, ih, List.length_cons,
      List.flatten_cons, Nat.succ_mul]
    omega

theorem length_flatMap_wire_blobs {slots : List DynamicSlot} {blobs : List Value}
    (h : blobs.map Value.type = slots.map fun slot => .blob slot.type) :
    (blobs.flatMap Value.wire).length =
      slots.length * lengthWidth + (blobs.map Value.content).flatten.length := by
  have hcount : blobs.length = slots.length := by simpa using congrArg List.length h
  rw [flatMap_wire_blobs h, length_flatMap_lengthBytes, List.length_map, hcount]

theorem headerWidth_add_length_declaration (codec : Codec) (values : List Value) :
    codec.layout.headerWidth + (codec.declaration values).length = codec.layout.staticOffset := by
  rw [declaration, Layout.staticOffset]
  cases codec.layout.isFixedSize with
  | true => rfl
  | false => rw [if_neg Bool.false_ne_true, length_lengthBytes, if_neg Bool.false_ne_true]

/-- The values lie where the static fields start. -/
theorem headerWidth_add_length_payload (codec : Codec) (values : List Value) :
    codec.layout.headerWidth + (codec.payload values).length =
      codec.layout.staticOffset + (values.flatMap Value.wire).length := by
  rw [payload, List.length_append, ← Nat.add_assoc, headerWidth_add_length_declaration]

/-- When the start of some bytes tells where a record ends. -/
theorem extent_eq_known_iff {codec : Codec} {data : Bytes} {size : Nat} :
    codec.extent data = .known size ↔
      if codec.layout.isFixedSize then size = codec.layout.headerWidth + codec.layout.staticWidth
      else codec.layout.staticOffset ≤ data.length ∧
        codec.layout.minDeclared ≤ codec.declared data ∧
        size = codec.layout.headerWidth + codec.declared data := by
  unfold extent Layout.fixedSize?
  cases codec.layout.isFixedSize with
  | true => simp [eq_comm]
  | false =>
    simp only [Bool.false_eq_true, if_false, Bytes.reaches_iff]
    by_cases hreach : codec.layout.staticOffset ≤ data.length
    · by_cases hmin : codec.declared data < codec.layout.minDeclared
      · simp [hreach, Layout.recordLength, hmin, Nat.not_le.mpr hmin]
      · simp [hreach, Layout.recordLength, hmin, Nat.not_lt.mp hmin, eq_comm]
    · simp [hreach]

section Extent

variable {codec : Codec} {data : Bytes} {size : Nat}

theorem decode_of_undetermined (h : codec.extent data = .undetermined) :
    codec.decode data =
      .error (.truncated codec.name codec.layout.fixedPortion data.length) := by
  simp [decode, h]

theorem decode_of_refused {error : CodecError} (h : codec.extent data = .refused error) :
    codec.decode data = .error error := by
  simp [decode, h]

theorem decode_of_short (h : codec.extent data = .known size) (hsize : data.length < size) :
    codec.decode data = .error (.truncated codec.name size data.length) := by
  simp [decode, h, Nat.not_le.mpr hsize]

theorem decode_of_known (h : codec.extent data = .known size) (hsize : size ≤ data.length) :
    codec.decode data = (codec.decodeWhole (data.take size)).map (·, size) := by
  simp [decode, h, hsize]

end Extent

section Image

variable {codec : Codec} (hplaced : codec.Placed) {values : List Value}
include hplaced

/-- Where the values start and how long they are, seen from the layout:
the fixed portion, and the contents of the dynamic fields. -/
theorem length_values {scalars : List Scalar} {blobs : List Value}
    (hscalars : scalars.map Scalar.type = codec.statics.map StaticSlot.type)
    (hblobs : blobs.map Value.type = codec.dynamics.map fun slot => .blob slot.type) :
    codec.layout.staticOffset + ((scalars.map Value.scalar ++ blobs).flatMap Value.wire).length =
      codec.layout.fixedPortion + (blobs.map Value.content).flatten.length := by
  have hstatics := hplaced.statics.length_encode hscalars
  rw [List.flatMap_append, List.length_append, flatMap_wire_scalars,
    length_flatMap_wire_blobs hblobs, hplaced.dynamics, Layout.fixedPortion]
  omega

/-- A record has its layout's fixed portion at least. -/
theorem fixedPortion_le (h : values.map Value.type = codec.fields.map Field.type) :
    codec.layout.fixedPortion ≤
      codec.layout.staticOffset + (values.flatMap Value.wire).length := by
  obtain ⟨scalars, blobs, rfl, hscalars, hblobs⟩ := exists_split h
  have := length_values hplaced hscalars hblobs
  omega

/-- Without dynamic fields there are no values with a length. -/
theorem blobs_eq_nil (hfixed : codec.layout.isFixedSize = true) {blobs : List Value}
    (hblobs : blobs.map Value.type = codec.dynamics.map fun slot => .blob slot.type) :
    blobs = [] := by
  have hcount : codec.layout.dynamicCount = 0 := by simpa [Layout.isFixedSize] using hfixed
  have hlen := congrArg List.length hblobs
  rw [List.length_map, List.length_map, hplaced.dynamics, hcount] at hlen
  exact List.eq_nil_of_length_eq_zero hlen

/-- A record without dynamic fields is as long as the layout says. -/
theorem length_of_isFixedSize (hfixed : codec.layout.isFixedSize = true)
    (h : values.map Value.type = codec.fields.map Field.type) :
    codec.layout.headerWidth + (codec.payload values).length =
      codec.layout.headerWidth + codec.layout.staticWidth := by
  obtain ⟨scalars, blobs, rfl, hscalars, hblobs⟩ := exists_split h
  have hlen := length_values hplaced hscalars hblobs
  have hcount : codec.layout.dynamicCount = 0 := by simpa [Layout.isFixedSize] using hfixed
  rw [headerWidth_add_length_payload, hlen, blobs_eq_nil hplaced hfixed hblobs]
  simp [Layout.fixedPortion, Layout.dynamicOffset, Layout.staticOffset, hfixed, hcount]

/-- Where the record's length can be declared, so can the lengths in it. -/
theorem length_content_le {scalars : List Scalar} {blobs : List Value}
    (h : codec.Fits (scalars.map Value.scalar ++ blobs))
    (hblobs : blobs.map Value.type = codec.dynamics.map fun slot => .blob slot.type) :
    ∀ value ∈ blobs, value.content.length ≤ maxLength := by
  intro value hvalue
  cases hfixed : codec.layout.isFixedSize with
  | true =>
    rw [blobs_eq_nil hplaced hfixed hblobs] at hvalue
    exact (List.not_mem_nil hvalue).elim
  | false =>
    have hlength := h.length hfixed
    have hpart : value.content.length ≤ (blobs.map Value.content).flatten.length :=
      (List.sublist_flatten_of_mem (List.mem_map_of_mem hvalue)).length_le
    rw [List.flatMap_append, List.length_append, length_flatMap_wire_blobs hblobs] at hlength
    omega

/-- The decoder finds where a record ends, whatever header it has. -/
theorem extent_image (h : codec.Fits values) {header : Bytes}
    (hheader : header.length = codec.layout.headerWidth) (rest : Bytes) :
    codec.extent (header ++ codec.payload values ++ rest) =
      .known (header ++ codec.payload values).length := by
  rw [extent_eq_known_iff, List.length_append, hheader]
  split
  · rename_i hfixed
    exact length_of_isFixedSize hplaced hfixed h.types
  · rename_i hdynamic
    have hfixed : codec.layout.isFixedSize = false := by simpa using hdynamic
    have hmin := fixedPortion_le hplaced h.types
    have hoffset : codec.layout.staticOffset = codec.layout.headerWidth + lengthWidth := by
      simp [Layout.staticOffset, hfixed]
    have hdeclared : codec.declared (header ++ codec.payload values ++ rest) =
        lengthWidth + (values.flatMap Value.wire).length := by
      have hplace := Bytes.slice_middle header
        (lengthBytes (lengthWidth + (values.flatMap Value.wire).length))
        (values.flatMap Value.wire ++ rest)
      rw [hheader, length_lengthBytes] at hplace
      rw [declared, payload, declaration, if_neg hdynamic, List.append_assoc, List.append_assoc,
        hplace, decode_lengthBytes (h.length hfixed)]
    rw [hdeclared, headerWidth_add_length_payload, Layout.minDeclared, List.length_append,
      List.length_append, hheader, headerWidth_add_length_payload]
    omega

/-- The values of a whole record are read back. -/
theorem decodeWhole_image (h : codec.Fits values) {front : Bytes}
    (hfront : front.length = codec.layout.staticOffset) :
    codec.decodeWhole (front ++ values.flatMap Value.wire) =
      .ok (codec.assemble values) := by
  unfold assemble
  obtain ⟨scalars, blobs, rfl, hscalars, hblobs⟩ := exists_split h.types
  have hend : (front ++ scalars.flatMap Scalar.encode).length = codec.layout.dynamicOffset := by
    rw [List.length_append, hfront, hplaced.statics.length_encode hscalars]
  have hstatics := hplaced.statics.readScalar_image hscalars hfront (blobs.flatMap Value.wire)
  have hcount : scalars.length = codec.statics.length := by
    simpa using congrArg List.length hscalars
  rw [List.flatMap_append, flatMap_wire_scalars, decodeWhole, ← List.append_assoc,
    List.drop_left' hend, readDynamics_image _ hblobs
      (length_content_le hplaced h hblobs)]
  rw [readStatics, fields, List.map_append, List.map_map, List.map_map,
    List.zip_append (by simp [hcount]), Record.ofList, Record.ofList, List.foldl_append,
    insertAll, List.append_assoc]
  congr 3
  rw [← hstatics, List.zip_map']
  rfl

/-- The bytes from the static fields on are those of some values. -/
theorem exists_values_of_decodeWhole {whole : Bytes} {record : Record}
    (hlen : codec.layout.dynamicOffset ≤ whole.length)
    (h : codec.decodeWhole whole = .ok record) :
    ∃ values : List Value, values.map Value.type = codec.fields.map Field.type ∧
      whole.drop codec.layout.staticOffset = values.flatMap Value.wire := by
  obtain ⟨scalars, hscalars, hstatics⟩ := hplaced.statics.exists_scalars hlen
  obtain ⟨blobs, hblobs, -, hdynamics⟩ := exists_values_of_readDynamics h
  have hle := hplaced.statics.start_le_stop
  refine ⟨scalars.map Value.scalar ++ blobs, ?_, ?_⟩
  · rw [List.map_append, hblobs, List.map_map, fields, List.map_append, List.map_map,
      List.map_map]
    congr 1
    have := congrArg (List.map FieldType.scalar) hscalars
    rwa [List.map_map, List.map_map] at this
  · have hsplit := List.take_append_drop
      (codec.layout.dynamicOffset - codec.layout.staticOffset)
      (whole.drop codec.layout.staticOffset)
    rw [List.drop_drop, Nat.add_sub_cancel' hle] at hsplit
    rw [← hsplit, List.flatMap_append, flatMap_wire_scalars, hstatics, ← hdynamics]
    rfl

omit hplaced in
/-- A record that is known to end somewhere has room for its static fields. -/
theorem dynamicOffset_le_of_extent {data : Bytes} {size : Nat}
    (h : codec.extent data = .known size) : codec.layout.dynamicOffset ≤ size := by
  rw [extent_eq_known_iff] at h
  split at h
  · rename_i hfixed
    exact Nat.le_of_eq (by rw [h, Layout.dynamicOffset, Layout.staticOffset, if_pos hfixed])
  · obtain ⟨-, hmin, hsize⟩ := h
    rw [Layout.minDeclared, Layout.fixedPortion] at hmin
    omega

omit hplaced in
/-- So it has room for its header. -/
theorem headerWidth_le_of_extent {data : Bytes} {size : Nat}
    (h : codec.extent data = .known size) : codec.layout.headerWidth ≤ size := by
  have hdynamic := dynamicOffset_le_of_extent h
  rw [Layout.dynamicOffset, Layout.staticOffset] at hdynamic
  split at hdynamic <;> omega

omit hplaced in
/-- Values that fill a record up to where it is known to end have room to
declare their length, and the record declares it. -/
theorem eq_image_of_extent {data : Bytes} {size : Nat} (h : codec.extent data = .known size)
    (hsize : size ≤ data.length)
    (htypes : values.map Value.type = codec.fields.map Field.type)
    (hvalues : (data.take size).drop codec.layout.staticOffset = values.flatMap Value.wire) :
    codec.Fits values ∧
      data.take size = data.take codec.layout.headerWidth ++ codec.payload values := by
  have hdynamic := dynamicOffset_le_of_extent h
  rw [extent_eq_known_iff] at h
  rw [Layout.dynamicOffset] at hdynamic
  have hlen := congrArg List.length hvalues
  rw [List.length_drop, List.length_take, Nat.min_eq_left hsize] at hlen
  split at h
  · rename_i hfixed
    have hoffset : codec.layout.staticOffset = codec.layout.headerWidth := by
      rw [Layout.staticOffset, if_pos hfixed]
    refine ⟨⟨htypes, fun hno => absurd hfixed (by simp [hno])⟩, ?_⟩
    rw [payload, declaration, if_pos hfixed, ← hvalues, hoffset, List.nil_append]
    conv_lhs => rw [← List.take_append_drop codec.layout.headerWidth (data.take size)]
    rw [List.take_take, Nat.min_eq_left (by omega)]
  · rename_i hfixed
    obtain ⟨hreach, -, hlength⟩ := h
    have hoffset : codec.layout.staticOffset = codec.layout.headerWidth + lengthWidth := by
      rw [Layout.staticOffset, if_neg hfixed]
    have hslice : (data.slice codec.layout.headerWidth lengthWidth).length = lengthWidth :=
      Bytes.length_slice (by omega)
    have hbody : lengthWidth + (values.flatMap Value.wire).length = codec.declared data := by
      have hfill : codec.layout.headerWidth + (lengthWidth + (values.flatMap Value.wire).length) =
          codec.layout.headerWidth + codec.declared data := by
        rw [← hlength]
        omega
      exact Nat.add_left_cancel hfill
    refine ⟨⟨htypes, fun _ => ?_⟩, ?_⟩
    · rw [hbody]
      exact decode_le_maxLength hslice
    · rw [payload, declaration, if_neg hfixed, hbody, declared, lengthBytes_decode hslice,
        ← hvalues]
      conv_lhs => rw [← List.take_append_drop codec.layout.staticOffset (data.take _)]
      rw [List.take_take, Nat.min_eq_left (by omega), hoffset, List.take_add, List.append_assoc]
      rfl

/-- A whole record is its header and the payload of the values it holds. -/
theorem decodeWhole_payload (h : codec.Fits values) {header : Bytes}
    (hheader : header.length = codec.layout.headerWidth) :
    codec.decodeWhole (header ++ codec.payload values) =
      .ok (codec.assemble values) := by
  rw [payload, ← List.append_assoc]
  refine decodeWhole_image hplaced h ?_
  rw [List.length_append, hheader, headerWidth_add_length_declaration]

omit hplaced in
/-- Decoding is telling where a record ends, and reading the whole of it. -/
theorem decode_eq_ok_iff_extent {data : Bytes} {record : Record} {size : Nat} :
    codec.decode data = .ok (record, size) ↔
      codec.extent data = .known size ∧ size ≤ data.length ∧
        codec.decodeWhole (data.take size) = .ok record := by
  cases hextent : codec.extent data with
  | undetermined => simp [decode_of_undetermined hextent]
  | refused error => simp [decode_of_refused hextent]
  | known length =>
    by_cases hreach : length ≤ data.length
    · rw [decode_of_known hextent hreach, map_eq_ok_iff]
      constructor
      · rintro ⟨found, hwhole, hpair⟩
        cases hpair
        exact ⟨rfl, hreach, hwhole⟩
      · rintro ⟨hsame, -, hwhole⟩
        cases hsame
        exact ⟨record, hwhole, rfl⟩
    · rw [decode_of_short hextent (Nat.not_le.mp hreach)]
      refine iff_of_false nofun ?_
      rintro ⟨hsame, hsize, -⟩
      cases hsame
      exact hreach hsize

/-- **What the decoder accepts.** A record is read off the front of some
bytes exactly when these are a header, the payload of values that fit, and
a rest; what is read are these values under the fields' names. -/
theorem decode_eq_ok_iff {data : Bytes} {record : Record} {size : Nat} :
    codec.decode data = .ok (record, size) ↔ ∃ header values rest,
      header.length = codec.layout.headerWidth ∧ codec.Fits values ∧
      data = header ++ codec.payload values ++ rest ∧
      record = codec.assemble values ∧
      size = (header ++ codec.payload values).length := by
  rw [decode_eq_ok_iff_extent]
  constructor
  · intro h
    obtain ⟨hextent, hsize, hwhole⟩ := h
    have hdynamic := dynamicOffset_le_of_extent hextent
    have hlength : (data.take size).length = size := by
      rw [List.length_take, Nat.min_eq_left hsize]
    obtain ⟨values, htypes, hvalues⟩ :=
      exists_values_of_decodeWhole hplaced (by rw [hlength]; exact hdynamic) hwhole
    obtain ⟨hfits, himage⟩ := eq_image_of_extent hextent hsize htypes hvalues
    have hheader : (data.take codec.layout.headerWidth).length = codec.layout.headerWidth := by
      have := headerWidth_add_length_declaration codec values
      have := hplaced.statics.start_le_stop
      rw [List.length_take]
      omega
    rw [himage, decodeWhole_payload hplaced hfits hheader] at hwhole
    refine ⟨_, values, data.drop size, hheader, hfits, ?_, (Except.ok.inj hwhole).symm, ?_⟩
    · rw [← himage, List.take_append_drop]
    · rw [← himage, hlength]
  · rintro ⟨header, values, rest, hheader, hfits, rfl, rfl, rfl⟩
    refine ⟨extent_image hplaced hfits hheader rest, ?_, ?_⟩
    · simp only [List.length_append]
      omega
    · rw [List.take_left]
      exact decodeWhole_payload hplaced hfits hheader

omit hplaced in
/-- The contents of the dynamic fields are those of the values they send. -/
theorem blobsOf_iff {record : Record} {slots : List DynamicSlot} {contents : List Bytes} :
    List.Forall₂ (fun slot content => codec.blobOf record slot = .ok content) slots contents ↔
      ∃ blobs : List Value,
        List.Forall₂ (fun (slot : DynamicSlot) sent => ∃ given,
          record.get? slot.name = some given ∧
          Value.SentAs codec.typecheck (.blob slot.type) given sent) slots blobs ∧
        (∀ value ∈ blobs, value.content.length ≤ maxLength) ∧
        contents = blobs.map Value.content := by
  simp only [blobOf_eq_ok_iff]
  constructor
  · intro h
    induction h with
    | nil => exact ⟨[], .nil, fun _ hv => (List.not_mem_nil hv).elim, rfl⟩
    | cons hfield _ ih =>
      obtain ⟨given, sent, hgiven, hsent, rfl, hlen⟩ := hfield
      obtain ⟨blobs, hblobs, hshort, rfl⟩ := ih
      exact ⟨sent :: blobs, .cons ⟨given, hgiven, hsent⟩ hblobs,
        List.forall_mem_cons.mpr ⟨hlen, hshort⟩, rfl⟩
  · rintro ⟨blobs, hblobs, hshort, rfl⟩
    induction hblobs with
    | nil => exact .nil
    | cons hfield _ ih =>
      obtain ⟨given, hgiven, hsent⟩ := hfield
      obtain ⟨hlen, hrest⟩ := List.forall_mem_cons.mp hshort
      exact .cons ⟨given, _, hgiven, hsent, rfl, hlen⟩ (ih hrest)

omit hplaced in
/-- The values that the fields send are scalars for the static fields, then
the values of the dynamic ones. -/
theorem sends_iff {record : Record} :
    codec.Sends record values ↔ ∃ (scalars : List Scalar) (blobs : List Value),
      values = scalars.map Value.scalar ++ blobs ∧
      List.Forall₂ (fun slot v => codec.scalarOf record slot = .ok v) codec.statics scalars ∧
      List.Forall₂ (fun (slot : DynamicSlot) sent => ∃ given,
        record.get? slot.name = some given ∧
        Value.SentAs codec.typecheck (.blob slot.type) given sent) codec.dynamics blobs := by
  rw [Sends, fields, forall₂_append_left_iff]
  simp only [List.forall₂_map_left_iff, scalarOf_eq_ok_iff]
  constructor
  · rintro ⟨front, blobs, hfront, hblobs, rfl⟩
    suffices hscalars : ∃ scalars : List Scalar, front = scalars.map Value.scalar by
      obtain ⟨scalars, rfl⟩ := hscalars
      exact ⟨scalars, blobs, rfl, List.forall₂_map_right_iff.mp hfront, hblobs⟩
    clear hblobs
    generalize codec.statics = slots at hfront
    induction hfront with
    | nil => exact ⟨[], rfl⟩
    | @cons slot sent _ _ hfield _ ih =>
      obtain ⟨given, -, hsent⟩ := hfield
      obtain ⟨scalars, rfl⟩ := ih
      cases sent with
      | scalar v => exact ⟨v :: scalars, rfl⟩
      | string s => exact nomatch hsent.type_eq
      | bytes bs => exact nomatch hsent.type_eq
  · rintro ⟨scalars, blobs, rfl, hscalars, hblobs⟩
    exact ⟨_, blobs, List.forall₂_map_right_iff.mpr hscalars, hblobs, rfl⟩

omit hplaced in
/-- What is sent has the fields' types. -/
theorem Sends.types {record : Record} (h : codec.Sends record values) :
    values.map Value.type = codec.fields.map Field.type := by
  unfold Sends at h
  generalize codec.fields = fields at h
  induction h with
  | nil => rfl
  | cons hfield _ ih =>
    obtain ⟨given, -, hsent⟩ := hfield
    rw [List.map_cons, hsent.type_eq, ih, List.map_cons]

/-- The measuring pass finds the size of the record that is written, and
refuses one whose length cannot be declared. -/
theorem encodedLength_eq_ok_iff {record : Record} {size : Nat} {scalars : List Scalar}
    {blobs : List Value}
    (htypes : (scalars.map Value.scalar ++ blobs).map Value.type = codec.fields.map Field.type)
    (hcount : codec.statics.length = scalars.length)
    (hblobs : codec.dynamics.mapM (codec.blobOf record) = .ok (blobs.map Value.content)) :
    codec.encodedLength record = .ok size ↔
      codec.Fits (scalars.map Value.scalar ++ blobs) ∧
      size = codec.layout.headerWidth +
        (codec.payload (scalars.map Value.scalar ++ blobs)).length := by
  obtain ⟨hscalarTypes, hblobTypes⟩ := types_of_split htypes hcount
  unfold encodedLength Layout.fixedSize?
  cases hfixed : codec.layout.isFixedSize with
  | true =>
    have hfits : codec.Fits (scalars.map Value.scalar ++ blobs) :=
      ⟨htypes, fun hno => absurd hfixed (by simp [hno])⟩
    simp only [if_true, Except.ok.injEq, hfits, true_and,
      length_of_isFixedSize hplaced hfixed htypes]
    exact eq_comm
  | false =>
    have hoffset : codec.layout.staticOffset = codec.layout.headerWidth + lengthWidth := by
      simp [Layout.staticOffset, hfixed]
    rw [headerWidth_add_length_payload, length_values hplaced hscalarTypes hblobTypes]
    have hlen := length_values hplaced hscalarTypes hblobTypes
    simp only [Bool.false_eq_true, if_false, hblobs, bind, Except.bind]
    split
    · rename_i hlong
      simp only [reduceCtorEq, false_iff]
      rintro ⟨hfits, -⟩
      have := hfits.length hfixed
      omega
    · rename_i hshort
      have hfits : codec.Fits (scalars.map Value.scalar ++ blobs) :=
        ⟨htypes, fun _ => by omega⟩
      simp only [Except.ok.injEq, hfits, true_and]
      exact eq_comm

omit hplaced in
/-- The four parts that the encoder writes make up the header and the payload. -/
theorem parts_eq_image {scalars : List Scalar} {blobs : List Value} {size : Nat}
    (hblobs : blobs.map Value.type = codec.dynamics.map fun slot => .blob slot.type)
    (hsize : size = codec.layout.headerWidth +
      (codec.payload (scalars.map Value.scalar ++ blobs)).length) :
    codec.layout.form.write codec.id ++
        (if codec.layout.isFixedSize then []
          else lengthBytes (size - codec.layout.headerWidth)) ++
        scalars.flatMap Scalar.encode ++
        (blobs.map Value.content).flatMap (fun content =>
          lengthBytes content.length ++ content) =
      codec.layout.form.write codec.id ++
        codec.payload (scalars.map Value.scalar ++ blobs) := by
  have hdeclared : (if codec.layout.isFixedSize then []
      else lengthBytes (size - codec.layout.headerWidth)) =
      codec.declaration (scalars.map Value.scalar ++ blobs) := by
    rw [declaration]
    split
    · rfl
    · rename_i hdynamic
      rw [headerWidth_add_length_payload, Layout.staticOffset, if_neg hdynamic] at hsize
      congr 1
      omega
  rw [hdeclared, payload, List.flatMap_append, flatMap_wire_scalars, flatMap_wire_blobs hblobs]
  simp only [List.append_assoc]

/-- **What the encoder writes.** A record is encoded exactly when each field
has a value to send and the length of these values can be declared; what is
written is the event's header and their payload. -/
theorem encode_eq_ok_iff {record : Record} {bytes : Bytes} :
    codec.encode record = .ok bytes ↔ ∃ values,
      codec.Sends record values ∧ codec.Fits values ∧
      bytes = codec.layout.form.write codec.id ++ codec.payload values := by
  simp only [encode, bind_eq_ok_iff, mapM_eq_ok_iff, sends_iff, Except.ok.injEq]
  constructor
  · rintro ⟨size, hsize, scalars, hscalars, contents, hcontents, rfl⟩
    obtain ⟨blobs, hblobs, hshort, rfl⟩ := blobsOf_iff.mp hcontents
    have hsends := sends_iff.mpr ⟨scalars, blobs, rfl, hscalars, hblobs⟩
    obtain ⟨hfits, hsize⟩ := (encodedLength_eq_ok_iff hplaced hsends.types hscalars.length_eq
      (mapM_eq_ok_iff.mpr hcontents)).mp hsize
    have hblobTypes := (types_of_split hsends.types hscalars.length_eq).2
    exact ⟨_, ⟨scalars, blobs, rfl, hscalars, hblobs⟩, hfits, parts_eq_image hblobTypes hsize⟩
  · rintro ⟨values, ⟨scalars, blobs, rfl, hscalars, hblobs⟩, hfits, rfl⟩
    have hblobTypes := (types_of_split hfits.types hscalars.length_eq).2
    have hcontents := blobsOf_iff.mpr
      ⟨blobs, hblobs, length_content_le hplaced hfits hblobTypes, rfl⟩
    have hsize := (encodedLength_eq_ok_iff hplaced hfits.types hscalars.length_eq
      (mapM_eq_ok_iff.mpr hcontents)).mpr ⟨hfits, rfl⟩
    exact ⟨_, hsize, scalars, hscalars, _, hcontents, parts_eq_image hblobTypes rfl⟩

end Image

end Codec

end EventWire
