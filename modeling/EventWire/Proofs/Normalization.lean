/-
EventWire.Proofs.Normalization — what it means that types are not checked.

An encoder that checks no types converts what it is given to what the fields
hold. The decoder knows nothing of this: what it reads is a record that could
have been given with types checked, and encoding that one leads to the same
bytes. So not to check types is to normalize first and to check then
(`Codec.encode_unchecked`).

`Event.Normalizes` says what a record becomes. It speaks of the event's names
only, so it pins down, for each field, which value was sent
(`Event.Normalizes.exists_sent`), and a value that was sent is sent as it is by
any codec of the event.
-/
import EventWire.Proofs.Delivery

namespace EventWire

/-! ## Normal records -/

/-- The one record is the other with every field of its type and nothing else:
what was of the type is as it was, a number is converted to the type, and a text
or bytes have the bytes they had. -/
structure Event.Normalizes (event : Event) (given normal : Record) : Prop
    extends event.Conveys given normal where
  numbers : ∀ name type, ⟨name, .scalar type⟩ ∈ event.fields → ∃ v,
    given.get? name = some (.scalar v) ∧ normal.get? name = some (.scalar (v.convert type))
  contents : ∀ name type, ⟨name, .blob type⟩ ∈ event.fields → ∃ content,
    (given.get? name).bind Value.toBytes? = some content ∧
      (normal.get? name).bind Value.toBytes? = some content

namespace Value

variable {typecheck : Bool} {type : FieldType} {given sent : Value}

/-- What is sent with types checked is sent without, too. -/
theorem SentAs.unchecked (h : SentAs typecheck type given sent) :
    SentAs false type given sent := by
  cases h with
  | same h => exact .same h
  | number _ type v => exact .number rfl type v
  | textAsBytes _ s => exact .textAsBytes rfl s
  | bytesAsText _ s => exact .bytesAsText rfl s

theorem SentAs.exists_number {type : ScalarType} (h : SentAs typecheck (.scalar type) given sent) :
    ∃ v, given = .scalar v ∧ sent = .scalar (v.convert type) := by
  cases h with
  | same h =>
    cases given with
    | scalar v => exact ⟨v, rfl, by rw [← FieldType.scalar.inj h, Scalar.convert_self]⟩
    | string s => exact nomatch h
    | bytes bs => exact nomatch h
  | number _ type v => exact ⟨v, rfl, rfl⟩

/-- A text or bytes are sent as what has the same bytes. -/
theorem sentAs_of_toBytes?_eq {type : BlobType} {content : Bytes} (hsent : sent.type = .blob type)
    (hgivenBytes : given.toBytes? = some content) (hsentBytes : sent.toBytes? = some content) :
    SentAs false (.blob type) given sent := by
  cases sent with
  | scalar v => exact nomatch hsent
  | string s =>
    cases hsent
    cases hsentBytes
    cases given with
    | scalar v => exact nomatch hgivenBytes
    | string t =>
      rw [Utf8.encode_injective (Option.some.inj hgivenBytes)]
      exact .same rfl
    | bytes bs =>
      cases hgivenBytes
      exact .bytesAsText rfl s
  | bytes bs =>
    cases hsent
    cases hsentBytes
    cases given with
    | scalar v => exact nomatch hgivenBytes
    | string s =>
      cases hgivenBytes
      exact .textAsBytes rfl s
    | bytes bs' =>
      cases hgivenBytes
      exact .same rfl

end Value

/-- What a record becomes is, field by field, what is sent for it. -/
theorem Event.Normalizes.exists_sent {event : Event} {given normal : Record}
    (h : event.Normalizes given normal) (hnodup : (event.fields.map Field.name).Nodup)
    {field : Field} (hfield : field ∈ event.fields) :
    ∃ value sent, given.get? field.name = some value ∧ normal.get? field.name = some sent ∧
      Value.SentAs false field.type value sent := by
  obtain ⟨name, type⟩ := field
  cases type with
  | scalar type =>
    obtain ⟨v, hgiven, hnormal⟩ := h.numbers name type hfield
    exact ⟨_, _, hgiven, hnormal, .number rfl type v⟩
  | blob type =>
    obtain ⟨content, hgiven, hnormal⟩ := h.contents name type hfield
    obtain ⟨value, hvalue, hvalueBytes⟩ := Option.bind_eq_some_iff.mp hgiven
    obtain ⟨sent, hsent, hsentBytes⟩ := Option.bind_eq_some_iff.mp hnormal
    have htype : sent.type = .blob type := by
      have hdeclared : event.field? name = some ⟨name, .blob type⟩ :=
        (find?_key_eq_some_iff hnodup).mpr ⟨hfield, rfl⟩
      simpa [hsent, hdeclared] using h.types name
    exact ⟨value, sent, hvalue, hsent, Value.sentAs_of_toBytes?_eq htype hvalueBytes hsentBytes⟩

/-! ## Normalized and encoded -/

namespace Codec

variable {event : Event} {record : Record} {values : List Value} {bytes : Bytes}

/-- The record that is made of what was sent is what the given one becomes. -/
theorem Sends.normalizes {sender : Bool} (receiver : Bool)
    (hnodup : (event.fields.map Field.name).Nodup)
    (h : (compile event sender).Sends record values) :
    event.Normalizes record ((compile event receiver).assemble values) where
  toConveys := h.conveys receiver hnodup
  numbers name type hfield := by
    obtain ⟨given, sent, hgiven, hassembled, hsent⟩ := h.exists_sent receiver hnodup hfield
    obtain ⟨v, rfl, rfl⟩ := hsent.exists_number
    exact ⟨v, hgiven, hassembled⟩
  contents name type hfield := by
    obtain ⟨given, sent, hgiven, hassembled, hsent⟩ := h.exists_sent receiver hnodup hfield
    refine ⟨sent.content, ?_, ?_⟩
    · rw [hgiven, Option.bind_some, hsent.toBytes?_eq]
    · rw [hassembled, Option.bind_some, Value.toBytes?_of_blob hsent.type_eq]

/-- What a normal record sends with types checked, the given one sends without. -/
theorem Sends.of_normalizes {normal : Record} (hnodup : (event.fields.map Field.name).Nodup)
    (hnormal : event.Normalizes record normal) (h : (compile event true).Sends normal values) :
    (compile event false).Sends record values := by
  obtain ⟨hlength, hsends⟩ := List.forall₂_iff_zip.mp h
  refine List.forall₂_iff_zip.mpr ⟨hlength, ?_⟩
  intro field sent hmem
  have hfield : field ∈ event.fields :=
    (fields_compile_perm event true).mem_iff.mp (List.of_mem_zip hmem).1
  obtain ⟨value, held, hvalue, hheld, hsent⟩ := hnormal.exists_sent hnodup hfield
  obtain ⟨given, hgiven, hsame⟩ := hsends hmem
  obtain rfl := Option.some.inj (hheld.symm.trans hgiven)
  rw [hsame.eq_of_type_eq hsame.given_type_eq]
  exact ⟨value, hvalue, hsent⟩

/-- Values that are sent and fit are encoded, whichever codec they fit. -/
theorem encode_of_sends {sender checked : Bool}
    (hsends : (compile event sender).Sends record values)
    (hfits : (compile event checked).Fits values) :
    (compile event sender).encode record =
      .ok ((HeaderForm.ofId event.id).write event.id ++ (compile event checked).payload values) :=
  (encode_eq_ok_iff (placed_compile event sender)).mpr
    ⟨values, hsends, ⟨hfits.types, hfits.length⟩, rfl⟩

/-- **Not to check types is to normalize and to check them.** For an event that
was defined, a record that is encoded with types checked is encoded as the same
bytes without. A record that is encoded without is read, whatever follows it, as
its normal one, which is encoded as the same bytes, checked or not. Conversely,
if its normal one is encoded with types checked, so is a record without. -/
theorem encode_unchecked {id : UInt32} {name : String} {fields : List Field}
    (hdefine : Event.define id name fields = .ok event) (record : Record) (bytes : Bytes) :
    ((compile event true).encode record = .ok bytes →
        (compile event false).encode record = .ok bytes) ∧
      ((compile event false).encode record = .ok bytes → ∃ normal,
        event.Normalizes record normal ∧
          (∀ receiver rest, (compile event receiver).decode (bytes ++ rest) =
            .ok (normal, bytes.length)) ∧
          ∀ sender, (compile event sender).encode normal = .ok bytes) ∧
      ∀ normal, event.Normalizes record normal → (compile event true).encode normal = .ok bytes →
        (compile event false).encode record = .ok bytes := by
  have hnodup := Event.nodup_names_of_define hdefine
  refine ⟨?_, ?_, ?_⟩
  · intro h
    obtain ⟨values, hsends, hfits, rfl⟩ := (encode_eq_ok_iff (placed_compile event true)).mp h
    have hunchecked : (compile event false).Sends record values :=
      List.Forall₂.imp (fun field sent ⟨given, hgiven, hsent⟩ =>
        ⟨given, hgiven, hsent.unchecked⟩) hsends
    exact encode_of_sends hunchecked hfits
  · intro h
    obtain ⟨values, hsends, hfits, rfl⟩ := (encode_eq_ok_iff (placed_compile event false)).mp h
    refine ⟨_, hsends.normalizes false hnodup, ?_, ?_⟩
    · exact fun receiver rest => decode_payload receiver hfits rest
    · exact fun sender => encode_of_sends (sends_assemble hnodup hfits.types) hfits
  · intro normal hnormal h
    obtain ⟨values, hsends, hfits, rfl⟩ := (encode_eq_ok_iff (placed_compile event true)).mp h
    exact encode_of_sends (.of_normalizes hnodup hnormal hsends) hfits

/-- An event with a field for every way of being converted. -/
def gaugeEvent : Event :=
  ⟨9, "gauge",
    [⟨"count", .scalar .byte⟩, ⟨"level", .scalar .int16⟩, ⟨"ratio", .scalar .float32⟩,
      ⟨"raw", .blob .bytes⟩, ⟨"unit", .blob .string⟩]⟩

/-- A record that has none of the declared types, and a field too many. -/
def gaugeGiven : Record :=
  .ofList [("count", .scalar (.int32 300)), ("level", .scalar (.float64 ⟨0xc007333333333333⟩)),
    ("ratio", .scalar (.int32 3)), ("raw", .string "hi"), ("unit", .bytes [0xc3, 0xa9]),
    ("extra", .bytes [])]

def gaugeNormal : Record :=
  .ofList [("count", .scalar (.byte 255)), ("level", .scalar (.int16 (-2))),
    ("ratio", .scalar (.float32 ⟨0x40400000⟩)), ("raw", .bytes [0x68, 0x69]),
    ("unit", .string "é")]

def gaugeBytes : Bytes :=
  [0x09, 0x00, 0x00, 0x00, 0x17, 0xff, 0xff, 0xfe, 0x40, 0x40, 0x00, 0x00, 0x00, 0x00, 0x00, 0x02,
    0x68, 0x69, 0x00, 0x00, 0x00, 0x02, 0xc3, 0xa9]

theorem encode_unchecked_gauge :
    Event.define 9 "gauge" gaugeEvent.fields = .ok gaugeEvent ∧
      (compile gaugeEvent false).encode gaugeGiven = .ok gaugeBytes ∧
      gaugeEvent.Normalizes gaugeGiven gaugeNormal ∧
      ∀ sender, (compile gaugeEvent sender).encode gaugeNormal = .ok gaugeBytes := by
  have hdefine : Event.define 9 "gauge" gaugeEvent.fields = .ok gaugeEvent := by cbv
  have hgiven : (compile gaugeEvent false).encode gaugeGiven = .ok gaugeBytes := by
    decide +kernel
  have hread : (compile gaugeEvent true).decode (gaugeBytes ++ []) = .ok (gaugeNormal, 24) := by
    decide +kernel
  obtain ⟨-, hnormal, -⟩ := encode_unchecked hdefine gaugeGiven gaugeBytes
  obtain ⟨normal, hnormalizes, hdecode, hencode⟩ := hnormal hgiven
  obtain ⟨rfl, -⟩ := Prod.mk.inj (Except.ok.inj (hread.symm.trans (hdecode true [])))
  exact ⟨hdefine, hgiven, hnormalizes, hencode⟩

end Codec

end EventWire
