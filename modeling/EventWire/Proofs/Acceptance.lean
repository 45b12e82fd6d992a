/-
EventWire.Proofs.Acceptance — which records are encoded, and what is said of
the others.

Whether a field takes what a record holds for it is a matter of that field
alone (`Value.suits`), and so is what there is to complain about
(`Record.fault?`). The encoder comes by the dynamic fields first, when it
measures the record, and by the static fields when it writes them. As every
pass ends at its first error (`error?_mapM`), the answer is the fault of the
first field in that order (`Codec.encode_finds_fault`), provided that there is
room: a length that cannot be declared is an error of the whole record and of
no field.

The measuring pass has not seen the static fields. So it tells the size of a
record that may have no encoding, and is right about the encoding exactly when
no static field is at fault or an error came before
(`Codec.encodedLength_foretells`).
-/
import EventWire.Proofs.ExactImage
import Mathlib

namespace EventWire

/-! ## The first error -/

section Answers

variable {ε α β : Type} {answer : Except ε α}

/-- The error of an answer, if it is one. -/
def error? : Except ε α → Option ε
  | .ok _ => none
  | .error error => some error

@[simp] theorem error?_ok (a : α) : error? (.ok a : Except ε α) = none := rfl

@[simp] theorem error?_error (error : ε) : error? (.error error : Except ε α) = some error := rfl

theorem error?_eq_some_iff {error : ε} : error? answer = some error ↔ answer = .error error := by
  cases answer <;> simp [error?]

theorem error?_eq_none_iff : error? answer = none ↔ ∃ a, answer = .ok a := by
  cases answer <;> simp [error?]

theorem error?_map (f : α → β) : error? (answer.map f) = error? answer := by
  cases answer <;> rfl

theorem map_const_eq (b : β) :
    (answer.map fun _ => b) = (error? answer).elim (.ok b) .error := by
  cases answer <;> rfl

/-- A pass over a list ends with the first error on the way. -/
theorem error?_mapM (f : α → Except ε β) (xs : List α) :
    error? (xs.mapM f) = xs.findSome? fun x => error? (f x) := by
  induction xs with
  | nil => rfl
  | cons x xs ih =>
    rw [List.mapM_cons, List.findSome?_cons, ← ih]
    cases f x with
    | error error => rfl
    | ok y => cases xs.mapM f <;> rfl

end Answers

theorem findSome?_congr {α β : Type} {f g : α → Option β} {xs : List α}
    (h : ∀ x ∈ xs, f x = g x) : xs.findSome? f = xs.findSome? g := by
  induction xs with
  | nil => rfl
  | cons x xs ih =>
    obtain ⟨hx, hxs⟩ := List.forall_mem_cons.mp h
    rw [List.findSome?_cons, List.findSome?_cons, hx, ih hxs]

/-! ## What a field takes -/

/-- Whether a field of a type takes a value. With types checked it has to be of
exactly this type. Without, any number will do for a number, a text for bytes,
and bytes for a text if they are one. -/
def Value.suits (typecheck : Bool) (type : FieldType) (value : Value) : Bool :=
  if typecheck then value.type = type
  else
    match type, value with
    | .scalar _, .scalar _ => true
    | .blob .bytes, .bytes _ => true
    | .blob .bytes, .string _ => true
    | .blob .string, .string _ => true
    | .blob .string, .bytes bs => (Utf8.decode? bs).isSome
    | _, _ => false

/-- What is wrong with a value that a field does not take. -/
def Value.misfit (typecheck : Bool) (field : Field) (value : Value) : FieldError :=
  match typecheck, field.type, value with
  | false, .blob .string, .bytes _ => .notUtf8 field.name field.type
  | _, _, _ => .mismatch field.name field.type value.type

namespace Record

/-- What is wrong with what a record holds for a field of an event, if anything. -/
def fault? (record : Record) (event : String) (typecheck : Bool) (field : Field) :
    Option CodecError :=
  match record.get? field.name with
  | none => some (.missingField event field.name field.type)
  | some value =>
    if value.suits typecheck field.type then none
    else some (.fieldType event (value.misfit typecheck field))

theorem fault?_eq_none_iff {record : Record} {event : String} {typecheck : Bool} {field : Field} :
    record.fault? event typecheck field = none ↔
      ∃ value, record.get? field.name = some value ∧ value.suits typecheck field.type := by
  unfold fault?
  cases record.get? field.name with
  | none => simp
  | some value => simp

/-- The number of bytes that a record holds under a name. -/
def contentLength (record : Record) (name : String) : Nat :=
  (((record.get? name).bind Value.toBytes?).getD []).length

end Record

namespace Codec

variable {codec : Codec} {record : Record}

theorem error?_scalarOf (slot : StaticSlot) :
    error? (codec.scalarOf record slot) =
      record.fault? codec.name codec.typecheck slot.field := by
  unfold scalarOf valueOf Record.fault? StaticSlot.field
  cases record.get? slot.name with
  | none => rfl
  | some value =>
    cases value with
    | scalar v =>
      by_cases hbad : codec.typecheck ∧ v.type ≠ slot.type
      · simp [bind, Except.bind, hbad, Value.suits, Value.misfit, Value.type, mismatch]
      · -- a number is taken if it is of the type, or if nobody looks
        have hsuits : Value.suits codec.typecheck (.scalar slot.type) (.scalar v) := by
          cases hcheck : codec.typecheck with
          | false => rfl
          | true => simpa [Value.suits, Value.type, hcheck] using hbad
        simp [bind, Except.bind, hbad, hsuits]
    | string s => cases codec.typecheck <;> rfl
    | bytes bs => cases codec.typecheck <;> rfl

/-- Apart from its length, a content is refused for the fault of its field. -/
theorem error?_contentOf {slot : DynamicSlot} {value : Value}
    (h : record.get? slot.name = some value) :
    error? (codec.contentOf slot value) =
      record.fault? codec.name codec.typecheck slot.field := by
  unfold contentOf Record.fault? DynamicSlot.field
  obtain ⟨name, type⟩ := slot
  simp only [h]
  cases value with
  | scalar v => cases type <;> cases codec.typecheck <;> rfl
  | string s => cases type <;> cases codec.typecheck <;> rfl
  | bytes bs =>
    cases type with
    | bytes => cases codec.typecheck <;> rfl
    | string =>
      cases codec.typecheck with
      | true => rfl
      | false =>
        cases htext : Utf8.decode? bs with
        | none => simp [htext, Value.suits, Value.misfit]
        | some s => simp [htext, Value.suits]

theorem length_of_blobOf {slot : DynamicSlot} {content : Bytes}
    (h : codec.blobOf record slot = .ok content) :
    content.length = record.contentLength slot.name := by
  obtain ⟨given, sent, hgiven, hsent, rfl, -⟩ := blobOf_eq_ok_iff.mp h
  simp [Record.contentLength, hgiven, hsent.toBytes?_eq]

theorem lengths_of_blobsOf {slots : List DynamicSlot} {contents : List Bytes}
    (h : slots.mapM (codec.blobOf record) = .ok contents) :
    contents.map List.length = slots.map fun slot => record.contentLength slot.name := by
  rw [mapM_eq_ok_iff] at h
  induction h with
  | nil => rfl
  | cons hcontent _ ih => rw [List.map_cons, List.map_cons, ih, length_of_blobOf hcontent]

theorem error?_blobOf {slot : DynamicSlot} (hshort : record.contentLength slot.name ≤ maxLength) :
    error? (codec.blobOf record slot) =
      record.fault? codec.name codec.typecheck slot.field := by
  cases hvalue : record.get? slot.name with
  | none => simp [blobOf, valueOf, Record.fault?, DynamicSlot.field, hvalue, bind, Except.bind]
  | some value =>
    have hfault : error? (codec.contentOf slot value) =
        record.fault? codec.name codec.typecheck slot.field := error?_contentOf hvalue
    rw [← hfault]
    have hvalueOf : codec.valueOf record slot.name (.blob slot.type) = .ok value :=
      valueOf_eq_ok_iff.mpr hvalue
    cases hcontent : codec.contentOf slot value with
    | error error => simp [blobOf, hvalueOf, hcontent, bind, Except.bind]
    | ok content =>
      obtain ⟨sent, hsent, rfl⟩ := contentOf_eq_ok_iff.mp hcontent
      have hlength : ¬ maxLength < sent.content.length := by
        simp only [Record.contentLength, hvalue, Option.bind_some, hsent.toBytes?_eq,
          Option.getD_some] at hshort
        omega
      simp [blobOf, hvalueOf, hcontent, hlength, bind, Except.bind]

/-- The size of an encoding is what was measured, if there is a scalar for every
static field. -/
theorem map_length_encode (hplaced : codec.Placed) (record : Record) :
    (codec.encode record).map List.length =
      codec.encodedLength record >>= fun size =>
        (codec.statics.mapM (codec.scalarOf record)).map fun _ => size := by
  unfold encode
  cases hsize : codec.encodedLength record with
  | error error => rfl
  | ok size =>
    obtain ⟨contents, hcontents, hlength, -⟩ := exists_contents_of_encodedLength hplaced hsize
    cases hscalars : codec.statics.mapM (codec.scalarOf record) with
    | error error => rfl
    | ok scalars =>
      have hwhole := (length_parts hplaced hscalars hlength).2
      rw [hcontents]
      exact congrArg Except.ok hwhole

end Codec

/-! ## Whole records -/

namespace Event

/-- The length that a record of the event declares, by what the record holds. -/
def lengthOf (event : Event) (record : Record) : Nat :=
  4 + event.staticWidth +
    (event.dynamicFields.map fun field => 4 + record.contentLength field.name).sum

/-- The length of the record can be declared, if it has to be. -/
def HasRoom (event : Event) (record : Record) : Prop :=
  event.hasDynamicFields → event.lengthOf record < 2 ^ 32

theorem hasDynamicFields_of_mem {event : Event} {field : Field}
    (h : field ∈ event.dynamicFields) : event.hasDynamicFields := by
  rw [dynamicFields, List.mem_filter] at h
  exact List.any_eq_true.mpr ⟨field, h⟩

theorem dynamicFields_eq_nil {event : Event} (h : event.hasDynamicFields = false) :
    event.dynamicFields = [] := by
  rw [List.eq_nil_iff_forall_not_mem]
  intro field hfield
  rw [hasDynamicFields_of_mem hfield] at h
  exact nomatch h

theorem HasRoom.contentLength_le {event : Event} {record : Record} {field : Field}
    (h : event.HasRoom record) (hfield : field ∈ event.dynamicFields) :
    record.contentLength field.name ≤ maxLength := by
  have hlength := h (hasDynamicFields_of_mem hfield)
  have hpart := List.le_sum_of_mem (List.mem_map_of_mem
    (f := fun field : Field => 4 + record.contentLength field.name) hfield)
  rw [lengthOf] at hlength
  rw [maxLength, UInt32.size]
  omega

end Event

namespace Codec

variable {event : Event} {typecheck : Bool} {record : Record}

theorem error?_scalarsOf (event : Event) (typecheck : Bool) (record : Record) :
    error? ((compile event typecheck).statics.mapM ((compile event typecheck).scalarOf record)) =
      event.staticFields.findSome? (record.fault? event.name typecheck) := by
  rw [← map_field_statics event typecheck, List.findSome?_map, error?_mapM]
  simp only [error?_scalarOf]
  rfl

theorem error?_blobsOf (typecheck : Bool) (h : event.HasRoom record) :
    error? ((compile event typecheck).dynamics.mapM ((compile event typecheck).blobOf record)) =
      event.dynamicFields.findSome? (record.fault? event.name typecheck) := by
  have hshort : ∀ slot ∈ (compile event typecheck).dynamics,
      record.contentLength slot.name ≤ maxLength := by
    intro slot hslot
    have hfield : slot.field ∈ event.dynamicFields := by
      rw [← map_field_dynamics event typecheck]
      exact List.mem_map_of_mem hslot
    exact h.contentLength_le hfield
  rw [← map_field_dynamics event typecheck, List.findSome?_map, error?_mapM]
  exact findSome?_congr fun slot hslot => error?_blobOf (hshort slot hslot)

/-- What was measured is the length that the record declares, and the header. -/
theorem measured_eq {contents : List Bytes} (hdynamic : event.hasDynamicFields)
    (h : (compile event typecheck).dynamics.mapM ((compile event typecheck).blobOf record) =
      .ok contents) :
    (compile event typecheck).layout.fixedPortion + contents.flatten.length =
      (compile event typecheck).layout.headerWidth + event.lengthOf record := by
  have hoffset := event.dynamicOffset_ofEvent
  have hwidth := event.headerWidth_ofEvent
  have hcount : (Layout.ofEvent event).dynamicCount = event.dynamicFields.length := rfl
  rw [if_pos hdynamic] at hoffset
  have hlengths : contents.flatten.length =
      (event.dynamicFields.map fun field => record.contentLength field.name).sum := by
    rw [List.length_flatten, lengths_of_blobsOf h, ← map_field_dynamics event typecheck,
      List.map_map]
    rfl
  have hsum : (event.dynamicFields.map fun field => 4 + record.contentLength field.name).sum =
      4 * event.dynamicFields.length + contents.flatten.length := by
    rw [List.sum_map_add, hlengths, List.map_const', List.sum_replicate, smul_eq_mul, Nat.mul_comm]
  rw [layout_compile, Layout.fixedPortion, Event.lengthOf, hsum, hcount, hoffset, hwidth,
    lengthWidth]
  omega

/-- **The measuring pass** complains about the dynamic fields alone. -/
theorem error?_encodedLength (typecheck : Bool) (h : event.HasRoom record) :
    error? ((compile event typecheck).encodedLength record) =
      event.dynamicFields.findSome? (record.fault? event.name typecheck) := by
  have hfixed : (compile event typecheck).layout.isFixedSize = !event.hasDynamicFields :=
    event.isFixedSize_ofEvent
  rw [encodedLength, Layout.fixedSize?, hfixed]
  cases hdynamic : event.hasDynamicFields with
  | false =>
    -- the layout has the answer, and there is no field to be at fault
    rw [Event.dynamicFields_eq_nil hdynamic]
    rfl
  | true =>
    rw [← error?_blobsOf typecheck h]
    cases hcontents : (compile event typecheck).dynamics.mapM
        ((compile event typecheck).blobOf record) with
    | error error => rfl
    | ok contents =>
      have hmeasured := measured_eq hdynamic hcontents
      have hroom : ¬ maxLength < (compile event typecheck).layout.fixedPortion +
          contents.flatten.length - (compile event typecheck).layout.headerWidth := by
        have hlength := h hdynamic
        rw [hmeasured, Nat.add_sub_cancel_left, maxLength, UInt32.size]
        omega
      simp only [Bool.not_true, Bool.false_eq_true, if_false, bind, Except.bind, if_neg hroom]
      rfl

/-- The error of an encoding: that of the measuring pass, or else the fault of
the first static field that has one. -/
theorem error?_encode (event : Event) (typecheck : Bool) (record : Record) :
    error? ((compile event typecheck).encode record) =
      (error? ((compile event typecheck).encodedLength record)).or
        (event.staticFields.findSome? (record.fault? event.name typecheck)) := by
  rw [← error?_scalarsOf, ← error?_map List.length,
    map_length_encode (placed_compile event typecheck)]
  cases (compile event typecheck).encodedLength record with
  | error error => rfl
  | ok size => exact error?_map _

/-- **Which records are encoded**, with types checked or not: those that hold,
for every field, something that suits it; what else they hold does not matter.
The others are refused for the first dynamic field that is at fault, or for the
first static field if no dynamic one is. -/
theorem encode_finds_fault (event : Event) (typecheck : Bool) {record : Record}
    (hroom : event.HasRoom record) :
    let answer := (compile event typecheck).encode record
    ((∃ bytes, answer = .ok bytes) ↔
        ∀ field ∈ event.fields, ∃ value, record.get? field.name = some value ∧
          value.suits typecheck field.type) ∧
      ∀ error, answer = .error error ↔
        (event.dynamicFields ++ event.staticFields).findSome?
          (record.fault? event.name typecheck) = some error := by
  intro answer
  have herror : error? answer = (event.dynamicFields ++ event.staticFields).findSome?
      (record.fault? event.name typecheck) := by
    rw [List.findSome?_append, ← error?_encodedLength typecheck hroom]
    exact error?_encode event typecheck record
  constructor
  · have hperm : (event.dynamicFields ++ event.staticFields).Perm event.fields :=
      List.perm_append_comm.trans
        (fields_compile event typecheck ▸ fields_compile_perm event typecheck)
    rw [← error?_eq_none_iff, herror, List.findSome?_eq_none_iff]
    simp only [hperm.mem_iff, Record.fault?_eq_none_iff]
  · intro error
    rw [← error?_eq_some_iff, herror]

/-- An event with two fields of each kind. -/
def noteEvent : Event :=
  ⟨2, "note",
    [⟨"at", .scalar .int16⟩, ⟨"by", .scalar .int32⟩, ⟨"data", .blob .bytes⟩,
      ⟨"text", .blob .string⟩]⟩

/-- A record in which `data` alone can be sent, if types are not checked. -/
def noteRecord : Record :=
  .ofList [("at", .string "noon"), ("data", .string "hi"), ("text", .bytes [0xc3]),
    ("extra", .bytes [])]

theorem encode_finds_fault_note :
    noteEvent.HasRoom noteRecord ∧
      (compile noteEvent false).encode noteRecord =
        .error (.fieldType "note" (.notUtf8 "text" (.blob .string))) ∧
      (compile noteEvent true).encode noteRecord =
        .error (.fieldType "note" (.mismatch "data" (.blob .bytes) (.blob .string))) := by
  have hroom : noteEvent.HasRoom noteRecord := fun _ => by decide
  exact ⟨hroom, ((encode_finds_fault noteEvent false hroom).2 _).mpr rfl,
    ((encode_finds_fault noteEvent true hroom).2 _).mpr rfl⟩

/-- **What measuring tells of encoding.** What was measured is the size of the
encoding, or its error, unless a static field is at fault. This is the error
then; but it is found only after the record has been measured, so measuring
says something else exactly when it has found nothing to complain about. -/
theorem encodedLength_foretells (event : Event) (typecheck : Bool) (record : Record) :
    let measured := (compile event typecheck).encodedLength record
    let written := ((compile event typecheck).encode record).map List.length
    let fault := event.staticFields.findSome? (record.fault? event.name typecheck)
    written = (measured >>= fun size => fault.elim (.ok size) .error) ∧
      (measured = written ↔ fault = none ∨ ∃ error, measured = .error error) := by
  intro measured written fault
  have hwritten : written = measured >>= fun size => fault.elim (.ok size) .error := by
    have hfault := error?_scalarsOf event typecheck record
    refine (map_length_encode (placed_compile event typecheck) record).trans ?_
    refine congrArg (measured >>= ·) (funext fun size => ?_)
    rw [map_const_eq, hfault]
  refine ⟨hwritten, ?_⟩
  rw [hwritten]
  cases hmeasured : measured with
  | error error => simp [bind, Except.bind]
  | ok size =>
    cases hfault : fault with
    | none => simp [bind, Except.bind]
    | some error => simp [bind, Except.bind]

/-- An event of one static field. -/
def tickEvent : Event := ⟨0, "ping", [⟨"id", .scalar .int32⟩]⟩

theorem encodedLength_overlooks :
    (compile tickEvent true).encodedLength .empty = .ok 5 ∧
      (compile tickEvent true).encode .empty =
        .error (.missingField "ping" "id" (.scalar .int32)) ∧
      ¬ (compile tickEvent true).encodedLength .empty =
        ((compile tickEvent true).encode .empty).map List.length := by
  refine ⟨rfl, rfl, ?_⟩
  decide

end Codec

end EventWire
