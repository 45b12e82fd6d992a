/-
EventWire.Proofs.FieldImage — what the fields of a record add to its bytes,
and how the codec writes and reads them.

* `Value.wire` — the bytes that one value adds to a record: those of a
  scalar, or a length and that many bytes.
* `Value.SentAs` — which value a field sends for the value it is given;
  with type checking, the same one or none.
* `StaticSlot.Tile` — slots that lie one after the other. The decoder reads
  static fields at the offsets of their slots, so this is what ties it to
  the plain concatenation of scalars.

Each half of the codec has its law here. For static fields these are
`Tile.readScalar_image` and `Tile.exists_scalars`, for dynamic ones
`readDynamics_image` and `exists_values_of_readDynamics`: what is written is
read back, and what can be read was written from some values.
-/
import EventWire.Codec
import Mathlib.Data.List.Forall2

namespace EventWire

/-! ## Steps that may fail, and slices -/

/-- Two steps succeed exactly when the first does and the second does on its result. -/
theorem bind_eq_ok_iff {ε α β : Type} {x : Except ε α} {f : α → Except ε β} {y : β} :
    (x >>= f) = .ok y ↔ ∃ a, x = .ok a ∧ f a = .ok y := by
  cases x <;> simp [bind, Except.bind]

theorem map_eq_ok_iff {ε α β : Type} {f : α → β} {answer : Except ε α} {b : β} :
    answer.map f = .ok b ↔ ∃ a, answer = .ok a ∧ f a = b := by
  cases answer <;> simp [Except.map]

theorem map_eq_error_iff {ε α β : Type} {f : α → β} {answer : Except ε α} {error : ε} :
    answer.map f = .error error ↔ answer = .error error := by
  cases answer <;> simp [Except.map]

/-- A `mapM` succeeds exactly when every step does. -/
theorem mapM_eq_ok_iff {ε α β : Type} {f : α → Except ε β} {xs : List α} {ys : List β} :
    xs.mapM f = .ok ys ↔ List.Forall₂ (fun x y => f x = .ok y) xs ys := by
  induction xs generalizing ys with
  | nil => cases ys <;> simp [pure, Except.pure]
  | cons x xs ih =>
    rw [List.mapM_cons, List.forall₂_cons_left_iff]
    simp only [bind_eq_ok_iff, ih, pure, Except.pure, Except.ok.injEq]
    constructor
    · rintro ⟨y, hy, zs, hzs, rfl⟩
      exact ⟨y, zs, hy, hzs, rfl⟩
    · rintro ⟨y, zs, hy, hzs, rfl⟩
      exact ⟨y, hy, zs, hzs, rfl⟩

/-- The middle of three pieces is the slice at its place. -/
theorem Bytes.slice_middle (front middle rest : Bytes) :
    Bytes.slice (front ++ (middle ++ rest)) front.length middle.length = middle := by
  simp [Bytes.slice]

/-- Two slices that meet are one. -/
theorem Bytes.slice_append_slice (bs : Bytes) (offset m n : Nat) :
    bs.slice offset m ++ bs.slice (offset + m) n = bs.slice offset (m + n) := by
  simp only [Bytes.slice, List.take_add, List.drop_drop]

/-! ## Values on the wire -/

namespace Value

/-- The bytes of a value without any length. -/
def content : Value → Bytes
  | scalar v => v.encode
  | string s => Utf8.encode s
  | bytes bs => bs

/-- The bytes that a value adds to a record. -/
def wire : Value → Bytes
  | scalar v => v.encode
  | string s => Codec.lengthBytes (Utf8.encode s).length ++ Utf8.encode s
  | bytes bs => Codec.lengthBytes bs.length ++ bs

/-- The value that a field of a type sends for a given one. A value of
that type is sent as it is; the rest needs type checking to be off. -/
inductive SentAs (typecheck : Bool) : FieldType → Value → Value → Prop
  | same {type : FieldType} {value : Value} (h : value.type = type) :
      SentAs typecheck type value value
  | number (off : typecheck = false) (type : ScalarType) (v : Scalar) :
      SentAs typecheck (.scalar type) (.scalar v) (.scalar (v.convert type))
  | textAsBytes (off : typecheck = false) (s : String) :
      SentAs typecheck (.blob .bytes) (.string s) (.bytes (Utf8.encode s))
  | bytesAsText (off : typecheck = false) (s : String) :
      SentAs typecheck (.blob .string) (.bytes (Utf8.encode s)) (.string s)

variable {typecheck : Bool} {type : FieldType} {given sent : Value}

/-- What is sent has the field's type. -/
theorem SentAs.type_eq (h : SentAs typecheck type given sent) : sent.type = type := by
  cases h with
  | same h => exact h
  | number _ type v => simp [Value.type]
  | textAsBytes => rfl
  | bytesAsText => rfl

/-- A value of the field's type is sent as it is, checked or not. -/
theorem SentAs.eq_of_type_eq (h : SentAs typecheck type given sent) (hg : given.type = type) :
    sent = given := by
  cases h with
  | same => rfl
  | number _ type v =>
    have hv : v.type = type := FieldType.scalar.inj hg
    subst hv
    simp
  | textAsBytes => exact nomatch hg
  | bytesAsText => exact nomatch hg

/-- With type checking nothing but a value of the field's type is sent. -/
theorem SentAs.given_type_eq (h : SentAs true type given sent) : given.type = type := by
  cases h with
  | same h => exact h
  | number off => exact nomatch off
  | textAsBytes off => exact nomatch off
  | bytesAsText off => exact nomatch off

theorem toBytes?_of_blob {value : Value} {type : BlobType} (h : value.type = .blob type) :
    value.toBytes? = some value.content := by
  cases value with
  | scalar v => exact nomatch h
  | string s => rfl
  | bytes bs => rfl

/-- What is sent for a text or bytes has the bytes of what was given. -/
theorem SentAs.toBytes?_eq {type : BlobType} (h : SentAs typecheck (.blob type) given sent) :
    given.toBytes? = some sent.content := by
  cases h with
  | same h => exact toBytes?_of_blob h
  | textAsBytes => rfl
  | bytesAsText => rfl

end Value

/-! ## Single fields -/

namespace Codec

variable {codec : Codec}

theorem valueOf_eq_ok_iff {record : Record} {field : String} {expected : FieldType}
    {value : Value} :
    codec.valueOf record field expected = .ok value ↔ record.get? field = some value := by
  unfold valueOf
  cases record.get? field <;> simp

/-- A static field is written as the scalar that it sends. -/
theorem scalarOf_eq_ok_iff {record : Record} {slot : StaticSlot} {v : Scalar} :
    codec.scalarOf record slot = .ok v ↔ ∃ given, record.get? slot.name = some given ∧
      Value.SentAs codec.typecheck (.scalar slot.type) given (.scalar v) := by
  simp only [scalarOf, bind_eq_ok_iff, valueOf_eq_ok_iff]
  refine exists_congr fun given => and_congr_right fun _ => ?_
  cases given with
  | string s =>
    simp only [reduceCtorEq, false_iff]
    intro hsent
    cases hsent
  | bytes bs =>
    simp only [reduceCtorEq, false_iff]
    intro hsent
    cases hsent
  | scalar w =>
    simp only []
    split
    · rename_i hbad
      simp only [reduceCtorEq, false_iff]
      intro hsent
      rw [hbad.1] at hsent
      exact hbad.2 (FieldType.scalar.inj hsent.given_type_eq)
    · rename_i hgood
      simp only [Except.ok.injEq]
      constructor
      · rintro rfl
        by_cases hw : w.type = slot.type
        · rw [← hw, Scalar.convert_self]
          exact .same rfl
        · exact .number (by simpa [hw] using hgood) slot.type w
      · intro hsent
        cases hsent with
        | same h => rw [← FieldType.scalar.inj h, Scalar.convert_self]
        | number => rfl

/-- The content of a dynamic field is that of the value it sends. -/
theorem contentOf_eq_ok_iff {slot : DynamicSlot} {given : Value} {content : Bytes} :
    codec.contentOf slot given = .ok content ↔
      ∃ sent, Value.SentAs codec.typecheck (.blob slot.type) given sent ∧
        sent.content = content := by
  unfold contentOf
  obtain ⟨name, type⟩ := slot
  constructor
  · intro h
    cases type <;> cases given <;> simp only [reduceCtorEq] at h
    case string.string s =>
      exact ⟨.string s, .same rfl, Except.ok.inj h⟩
    case string.bytes bs =>
      cases hcheck : codec.typecheck with
      | true => simp [hcheck] at h
      | false =>
        cases htext : Utf8.decode? bs with
        | none => simp [hcheck, htext] at h
        | some s =>
          rw [Utf8.decode?_eq_some_iff] at htext
          subst htext
          exact ⟨.string s, .bytesAsText rfl s, by simpa [hcheck, Value.content] using h⟩
    case bytes.string s =>
      cases hcheck : codec.typecheck with
      | true => simp [hcheck] at h
      | false =>
        exact ⟨.bytes (Utf8.encode s), .textAsBytes rfl s, by
          simpa [hcheck, Value.content] using h⟩
    case bytes.bytes bs =>
      exact ⟨.bytes bs, .same rfl, Except.ok.inj h⟩
  · rintro ⟨sent, hsent, rfl⟩
    cases hsent with
    | same h =>
      cases given with
      | scalar v => exact nomatch h
      | string s => cases h; rfl
      | bytes bs => cases h; rfl
    | textAsBytes off s => simp [off, Value.content]
    | bytesAsText off s => simp [off, Value.content]

theorem blobOf_eq_ok_iff {record : Record} {slot : DynamicSlot} {content : Bytes} :
    codec.blobOf record slot = .ok content ↔ ∃ given sent, record.get? slot.name = some given ∧
      Value.SentAs codec.typecheck (.blob slot.type) given sent ∧ sent.content = content ∧
      content.length ≤ maxLength := by
  simp only [blobOf, bind_eq_ok_iff, valueOf_eq_ok_iff, contentOf_eq_ok_iff]
  constructor
  · rintro ⟨given, hgiven, found, ⟨sent, hsent, hcontent⟩, hlen⟩
    split at hlen
    · exact nomatch hlen
    · cases hlen
      exact ⟨given, sent, hgiven, hsent, hcontent, by omega⟩
  · rintro ⟨given, sent, hgiven, hsent, hcontent, hlen⟩
    refine ⟨given, hgiven, content, ⟨sent, hsent, hcontent⟩, ?_⟩
    rw [if_neg (by omega)]

/-- A dynamic field is read as the one value of its type with the content. -/
theorem readBlob_eq_ok_iff {slot : DynamicSlot} {content : Bytes} {value : Value} :
    codec.readBlob slot content = .ok value ↔
      value.type = .blob slot.type ∧ value.content = content := by
  obtain ⟨name, type⟩ := slot
  unfold readBlob
  cases type with
  | bytes =>
    simp only [Except.ok.injEq]
    cases value with
    | scalar v => simp [Value.type]
    | string s => simp [Value.type]
    | bytes bs => simp [Value.type, Value.content, eq_comm]
  | string =>
    simp only []
    cases htext : Utf8.decode? content with
    | none =>
      simp only [reduceCtorEq, false_iff]
      rintro ⟨htype, rfl⟩
      cases value with
      | scalar v => cases htype
      | string s => simp [Value.content] at htext
      | bytes bs => cases htype
    | some s =>
      rw [Utf8.decode?_eq_some_iff] at htext
      subst htext
      simp only [Except.ok.injEq]
      constructor
      · rintro rfl
        exact ⟨rfl, rfl⟩
      · rintro ⟨htype, hcontent⟩
        cases value with
        | scalar v => cases htype
        | string t => rw [Utf8.encode_injective hcontent]
        | bytes bs => cases htype

end Codec

/-! ## Lengths -/

namespace Codec

theorem length_lengthBytes (n : Nat) : (lengthBytes n).length = lengthWidth :=
  BigEndian.length_encode ..

theorem maxLength_lt_capacity : maxLength < BigEndian.capacity lengthWidth := by decide

/-- A length that the wire has room for is read back. -/
theorem decode_lengthBytes {n : Nat} (h : n ≤ maxLength) : BigEndian.decode (lengthBytes n) = n :=
  BigEndian.decode_encode (Nat.lt_of_le_of_lt h maxLength_lt_capacity)

/-- Four bytes are those of the length that they spell. -/
theorem lengthBytes_decode {bs : Bytes} (h : bs.length = lengthWidth) :
    lengthBytes (BigEndian.decode bs) = bs := by
  rw [lengthBytes, ← h, BigEndian.encode_decode]

theorem decode_le_maxLength {bs : Bytes} (h : bs.length = lengthWidth) :
    BigEndian.decode bs ≤ maxLength := by
  have hlt := BigEndian.decode_lt bs
  rw [h] at hlt
  exact Nat.le_of_lt_succ hlt

end Codec

/-- The bytes of a dynamic field: its length, then its content. -/
theorem Value.wire_of_blob {value : Value} {type : BlobType} (h : value.type = .blob type) :
    value.wire = Codec.lengthBytes value.content.length ++ value.content := by
  cases value with
  | scalar v => exact nomatch h
  | string s => rfl
  | bytes bs => rfl

/-! ## Static fields -/

/-- The slots lie one after the other, from `start` up to `stop`. -/
def StaticSlot.Tile : Nat → List StaticSlot → Nat → Prop
  | start, [], stop => start = stop
  | start, slot :: slots, stop => slot.offset = start ∧ Tile (start + slot.type.width) slots stop

namespace StaticSlot.Tile

variable {start stop : Nat} {slots : List StaticSlot}

theorem start_le_stop (h : Tile start slots stop) : start ≤ stop := by
  induction slots generalizing start with
  | nil => exact Nat.le_of_eq h
  | cons slot slots ih =>
    have := ih h.2
    omega

/-- Scalars of the slots' types fill the stretch of the slots. -/
theorem length_encode {scalars : List Scalar} (h : Tile start slots stop)
    (htypes : scalars.map Scalar.type = slots.map StaticSlot.type) :
    start + (scalars.flatMap Scalar.encode).length = stop := by
  induction slots generalizing start scalars with
  | nil =>
    rw [List.map_nil, List.map_eq_nil_iff] at htypes
    subst htypes
    exact h
  | cons slot slots ih =>
    obtain ⟨v, vs, rfl, hv, hvs⟩ := List.map_eq_cons_iff.mp htypes
    have := ih h.2 hvs
    simp only [List.flatMap_cons, List.length_append, Scalar.length_encode, hv]
    omega

/-- Each slot reads the scalar that was written at its place. -/
theorem readScalar_image {scalars : List Scalar} {front : Bytes} (h : Tile start slots stop)
    (htypes : scalars.map Scalar.type = slots.map StaticSlot.type) (hfront : front.length = start)
    (rest : Bytes) :
    slots.map (Codec.readScalar (front ++ (scalars.flatMap Scalar.encode ++ rest))) =
      scalars.map Value.scalar := by
  induction slots generalizing start scalars front with
  | nil =>
    rw [List.map_nil, List.map_eq_nil_iff] at htypes
    subst htypes
    rfl
  | cons slot slots ih =>
    obtain ⟨v, vs, rfl, hv, hvs⟩ := List.map_eq_cons_iff.mp htypes
    obtain ⟨hoffset, htail⟩ := h
    have hwidth : v.encode.length = slot.type.width := by rw [Scalar.length_encode, hv]
    have hhead : Codec.readScalar
        (front ++ ((v :: vs).flatMap Scalar.encode ++ rest)) slot = .scalar v := by
      rw [Codec.readScalar, List.flatMap_cons, List.append_assoc, hoffset, ← hfront, ← hwidth,
        Bytes.slice_middle, ← hv, Scalar.decode_encode]
    have hnext : (front ++ v.encode).length = start + slot.type.width := by
      rw [List.length_append, hfront, hwidth]
    have htail' := ih htail hvs hnext
    rw [List.map_cons, hhead, List.map_cons, ← htail']
    simp only [List.flatMap_cons, List.append_assoc]

/-- Bytes that reach the end of the slots hold a scalar for each of them. -/
theorem exists_scalars {whole : Bytes} (h : Tile start slots stop) (hlen : stop ≤ whole.length) :
    ∃ scalars : List Scalar, scalars.map Scalar.type = slots.map StaticSlot.type ∧
      scalars.flatMap Scalar.encode = whole.slice start (stop - start) := by
  induction slots generalizing start with
  | nil =>
    cases h
    exact ⟨[], rfl, by simp [Bytes.slice]⟩
  | cons slot slots ih =>
    obtain ⟨-, htail⟩ := h
    obtain ⟨scalars, htypes, hbytes⟩ := ih htail
    have hle := htail.start_le_stop
    have hwidth : (whole.slice start slot.type.width).length = slot.type.width :=
      Bytes.length_slice (by omega)
    refine ⟨.decode slot.type (whole.slice start slot.type.width) :: scalars, ?_, ?_⟩
    · rw [List.map_cons, Scalar.type_decode, htypes, List.map_cons]
    · rw [List.flatMap_cons, Scalar.encode_decode hwidth, hbytes, Bytes.slice_append_slice]
      congr 1
      omega

end StaticSlot.Tile

/-! ## Dynamic fields -/

namespace Codec

variable {codec : Codec} {size cursor : Nat} {slots : List DynamicSlot}

/-- Adds values to a record, each under its name. -/
def insertAll (record : Record) (names : List String) (values : List Value) : Record :=
  (names.zip values).foldl (fun record pair => record.insert pair.1 pair.2) record

/-- Where a length and that many bytes lie ahead, the field is read from these
bytes, and the next field begins behind them. -/
theorem readDynamics_cons {slot : DynamicSlot} {content : Bytes} (rest : Bytes) (record : Record)
    (hshort : content.length ≤ maxLength) :
    codec.readDynamics size (slot :: slots) cursor
        (lengthBytes content.length ++ content ++ rest) record =
      codec.readBlob slot content >>= fun value =>
        codec.readDynamics size slots (cursor + lengthWidth + content.length) rest
          (record.insert slot.name value) := by
  rw [readDynamics, List.append_assoc, List.take_left' (length_lengthBytes _),
    List.drop_left' (length_lengthBytes _), decode_lengthBytes hshort, if_pos (by
      rw [Bytes.reaches_iff, List.length_append, length_lengthBytes]; omega)]
  simp only [Bytes.reaches_iff, List.length_append, Nat.le_add_right, if_true, List.take_left,
    List.drop_left]

/-- The dynamic fields are read back, in order, from their bytes. -/
theorem readDynamics_image {values : List Value} (record : Record)
    (htypes : values.map Value.type = slots.map fun slot => .blob slot.type)
    (hshort : ∀ value ∈ values, value.content.length ≤ maxLength) :
    codec.readDynamics size slots cursor (values.flatMap Value.wire) record =
      .ok (insertAll record (slots.map DynamicSlot.name) values) := by
  induction slots generalizing cursor values record with
  | nil =>
    rw [List.map_nil, List.map_eq_nil_iff] at htypes
    subst htypes
    rfl
  | cons slot slots ih =>
    obtain ⟨value, values, rfl, hv, hvs⟩ := List.map_eq_cons_iff.mp htypes
    have hread : codec.readBlob slot value.content = .ok value :=
      readBlob_eq_ok_iff.mpr ⟨hv, rfl⟩
    rw [List.flatMap_cons, Value.wire_of_blob hv,
      readDynamics_cons _ record (hshort value List.mem_cons_self), hread]
    exact ih (record.insert slot.name value) hvs fun w hw => hshort w (List.mem_cons_of_mem _ hw)

/-- What the dynamic fields are read from are the bytes of some values. -/
theorem exists_values_of_readDynamics {rest : Bytes} {record result : Record}
    (h : codec.readDynamics size slots cursor rest record = .ok result) :
    ∃ values : List Value, values.map Value.type = (slots.map fun slot => .blob slot.type) ∧
      (∀ value ∈ values, value.content.length ≤ maxLength) ∧
      rest = values.flatMap Value.wire := by
  induction slots generalizing cursor rest record with
  | nil =>
    unfold readDynamics at h
    split at h
    · rename_i hempty
      exact ⟨[], rfl, fun _ hv => (List.not_mem_nil hv).elim, by simpa using hempty⟩
    · exact nomatch h
  | cons slot slots ih =>
    unfold readDynamics at h
    split at h
    · rename_i hprefix
      simp only [] at h
      split at h
      · rename_i hbody
        rw [bind_eq_ok_iff] at h
        obtain ⟨value, hread, hrest⟩ := h
        obtain ⟨values, htypes, hshort, hbytes⟩ := ih hrest
        obtain ⟨htype, hcontent⟩ := readBlob_eq_ok_iff.mp hread
        rw [Bytes.reaches_iff] at hprefix hbody
        have htake : (rest.take lengthWidth).length = lengthWidth := by
          rw [List.length_take]; omega
        have hlen : value.content.length = BigEndian.decode (rest.take lengthWidth) := by
          rw [hcontent, List.length_take]; omega
        refine ⟨value :: values, by rw [List.map_cons, htype, htypes, List.map_cons], ?_, ?_⟩
        · intro w hw
          rcases List.mem_cons.mp hw with rfl | hw
          · rw [hlen]
            exact decode_le_maxLength htake
          · exact hshort w hw
        · rw [List.flatMap_cons, Value.wire_of_blob htype, hlen, lengthBytes_decode htake,
            hcontent, ← hbytes, List.append_assoc, List.take_append_drop, List.take_append_drop]
      · exact nomatch h
    · exact nomatch h

end Codec

end EventWire
