/-
EventWire.Proofs.RoundTrip — what is encoded is decoded.

`decode_written` is the general form: a codec of the same event reads the
written bytes back, whatever follows them, as the values that the fields
sent. It asks nothing of the two codecs' type checking, so it also covers a
sender that converts values and a receiver that does not.

With type checking a field sends the value it is given, so what is read is
the part of the record under the event's names
(`Codec.encode_roundtrip`). Repeated names do no harm there: every field of
one name has sent the same value.
-/
import EventWire.Proofs.WireImage

namespace EventWire

/-! ## Records from pairs -/

namespace Record

/-- Inserting pairs that agree with a map gives that map under their names. -/
theorem get?_foldl_insert {f : String → Option Value} {pairs : List (String × Value)}
    (record : Record) (h : ∀ pair ∈ pairs, f pair.1 = some pair.2) (name : String) :
    (pairs.foldl (fun record pair => record.insert pair.1 pair.2) record).get? name =
      if name ∈ pairs.map Prod.fst then f name else record.get? name := by
  induction pairs generalizing record with
  | nil => simp
  | cons pair pairs ih =>
    obtain ⟨hpair, hpairs⟩ := List.forall_mem_cons.mp h
    rw [List.foldl_cons, ih _ hpairs, get?_insert, List.map_cons]
    by_cases hlater : name ∈ pairs.map Prod.fst
    · simp [hlater]
    · by_cases hname : name = pair.1
      · subst hname
        simp [hpair, hlater]
      · simp [hname, hlater]

theorem get?_ofList {f : String → Option Value} {pairs : List (String × Value)}
    (h : ∀ pair ∈ pairs, f pair.1 = some pair.2) (name : String) :
    (ofList pairs).get? name = if name ∈ pairs.map Prod.fst then f name else none :=
  get?_foldl_insert empty h name

/-- Pairs out of a record make up the part of it under their names. -/
theorem ofList_eq_restrict {record : Record} {pairs : List (String × Value)} {names : List String}
    (h : ∀ pair ∈ pairs, record.get? pair.1 = some pair.2)
    (hnames : ∀ name, name ∈ pairs.map Prod.fst ↔ name ∈ names) :
    ofList pairs = record.restrict names := by
  refine ext_get? fun name => ?_
  rw [get?_ofList h, get?_restrict]
  simp only [hnames]

end Record

/-! ## Written and read -/

namespace Codec

variable {event : Event} {record : Record} {bytes : Bytes}

/-- A codec of the event reads values that fit back from its header and their
payload. -/
theorem decode_payload {sender : Bool} {values : List Value} (receiver : Bool)
    (h : (compile event sender).Fits values) (rest : Bytes) :
    let bytes := (HeaderForm.ofId event.id).write event.id ++ (compile event sender).payload values
    (compile event receiver).decode (bytes ++ rest) =
      .ok ((compile event receiver).assemble values, bytes.length) := by
  refine (decode_eq_ok_iff (placed_compile event receiver)).mpr ?_
  -- the layout and the fields are those of the event, checked or not
  exact ⟨(HeaderForm.ofId event.id).write event.id, values, rest, HeaderForm.length_write ..,
    ⟨h.types, h.length⟩, rfl, rfl, rfl⟩

/-- Codecs of one event read each other's records. -/
theorem decode_written {sender : Bool} (receiver : Bool)
    (h : (compile event sender).encode record = .ok bytes) (rest : Bytes) :
    ∃ values, (compile event sender).Sends record values ∧
      (compile event receiver).decode (bytes ++ rest) =
        .ok ((compile event receiver).assemble values, bytes.length) := by
  obtain ⟨values, hsends, hfits, rfl⟩ := (encode_eq_ok_iff (placed_compile event sender)).mp h
  exact ⟨values, hsends, decode_payload receiver hfits rest⟩

/-- Every record starts with the header of its event. -/
theorem encode_eq_header_append {typecheck : Bool}
    (h : (compile event typecheck).encode record = .ok bytes) :
    ∃ payload, bytes = (HeaderForm.ofId event.id).write event.id ++ payload := by
  obtain ⟨values, -, -, rfl⟩ := (encode_eq_ok_iff (placed_compile event typecheck)).mp h
  exact ⟨_, rfl⟩

/-- A value under a field's name comes from that field. -/
theorem mem_zip_names {fields : List Field} {values : List Value} {pair : String × Value}
    (h : pair ∈ (fields.map Field.name).zip values) :
    ∃ field, (field, pair.2) ∈ fields.zip values ∧ pair.1 = field.name := by
  rw [List.zip_map_left, List.mem_map] at h
  obtain ⟨⟨field, value⟩, hmem, rfl⟩ := h
  exact ⟨field, hmem, rfl⟩

/-- Values for all the fields go under all their names. -/
theorem map_fst_zip_names {fields : List Field} {values : List Value}
    (h : values.map Value.type = fields.map Field.type) :
    ((fields.map Field.name).zip values).map Prod.fst = fields.map Field.name := by
  have hlength := congrArg List.length h
  rw [List.length_map, List.length_map] at hlength
  exact List.map_fst_zip (by simp [hlength])

/-- With type checking, fields send what the record holds under their names. -/
theorem Sends.get?_eq {codec : Codec} {values : List Value} (h : codec.Sends record values)
    (hcheck : codec.typecheck = true) :
    ∀ pair ∈ (codec.fields.map Field.name).zip values, record.get? pair.1 = some pair.2 := by
  intro pair hpair
  obtain ⟨field, hmem, hname⟩ := mem_zip_names hpair
  obtain ⟨given, hgiven, hsent⟩ := List.forall₂_zip h hmem
  rw [hcheck] at hsent
  rw [hname, hgiven, hsent.eq_of_type_eq hsent.given_type_eq]

/-- **Decoding undoes encoding.** With type checking, a record that could be
encoded is read back as its part under the event's names, bit for bit; so is
the event's header. -/
theorem encode_roundtrip (event : Event) (record : Record) (bytes rest : Bytes)
    (h : (compile event true).encode record = .ok bytes) :
    (compile event true).decode (bytes ++ rest) =
        .ok (record.restrict (event.fields.map Field.name), bytes.length) ∧
      Header.read? (bytes ++ rest) =
        some ⟨event.id, if 255 ≤ event.id then .extended else .compact⟩ := by
  constructor
  · obtain ⟨values, hsends, hdecode⟩ := decode_written true h rest
    have hpart : (compile event true).assemble values =
        record.restrict (event.fields.map Field.name) := by
      refine Record.ofList_eq_restrict (hsends.get?_eq rfl) fun name => ?_
      rw [map_fst_zip_names hsends.types]
      exact ((fields_compile_perm event true).map Field.name).mem_iff
    rw [hdecode, hpart]
  · obtain ⟨payload, rfl⟩ := encode_eq_header_append h
    have hform : HeaderForm.ofId event.id = if 255 ≤ event.id then .extended else .compact := by
      have hiff : maxCompactId < event.id ↔ 255 ≤ event.id := Iff.rfl
      simp only [HeaderForm.ofId, hiff]
    rw [List.append_assoc, Header.read?_write, hform]

/-- An event as a document may hold it: dynamic fields before static ones,
and a name twice. -/
def unsortedEvent : Event :=
  ⟨300, "chat",
    [⟨"text", .blob .string⟩, ⟨"at", .scalar .float64⟩, ⟨"text", .blob .string⟩]⟩

/-- A record with a NaN of its own, a letter outside ASCII and a field that
the event does not have. -/
def unsortedRecord : Record :=
  .ofList [("text", .string "é"), ("at", .scalar (.float64 ⟨0x7ff80000deadbeef⟩)),
    ("extra", .bytes [])]

def unsortedBytes : Bytes :=
  [0xff, 0x00, 0x00, 0x01, 0x2c, 0x00, 0x00, 0x00, 0x18, 0x7f, 0xf8, 0x00, 0x00, 0xde, 0xad, 0xbe,
    0xef, 0x00, 0x00, 0x00, 0x02, 0xc3, 0xa9, 0x00, 0x00, 0x00, 0x02, 0xc3, 0xa9]

theorem encode_roundtrip_unsorted :
    (compile unsortedEvent true).encode unsortedRecord = .ok unsortedBytes ∧
    (compile unsortedEvent true).decode (unsortedBytes ++ [0x07]) =
        .ok (unsortedRecord.restrict ["text", "at", "text"], 29) ∧
      Header.read? (unsortedBytes ++ [0x07]) = some ⟨300, .extended⟩ := by
  have h : (compile unsortedEvent true).encode unsortedRecord = .ok unsortedBytes := rfl
  exact ⟨h, encode_roundtrip unsortedEvent unsortedRecord unsortedBytes [0x07] h⟩

end Codec

end EventWire
