/-
EventWire.Proofs.Canonical — a record has one encoding.

What the decoder accepts, the encoder writes: byte for byte, header
included. On the way from a byte string to a record nothing may be lost
that the encoder would have to guess, so each byte that was accepted must
be forced:

* the header, because an id is taken in its own form only
  (`Header.eq_write_of_read?` and `Header.isCanonical`);
* the payload, because `Codec.decode_eq_ok_iff` leaves no choice but the
  values;
* the values, because fields of distinct names keep them apart
  (`Record.get?_ofList_of_nodup`).

The last point needs a checked definition. A name that comes twice loses
one of two values, and there decoding does not undo encoding.
-/
import EventWire.Proofs.RegistrySchema
import EventWire.Proofs.RoundTrip
import Mathlib

namespace EventWire

/-! ## Records of the declared names -/

/-- Among things of distinct keys, the one of a key does not depend on their
order. -/
theorem find?_key_of_perm {α β : Type} [DecidableEq β] {key : α → β} {xs ys : List α}
    (h : xs.Perm ys) (hnodup : (xs.map key).Nodup) (k : β) :
    xs.find? (fun x => decide (key x = k)) = ys.find? (fun x => decide (key x = k)) := by
  have hnodup' : (ys.map key).Nodup := (h.map key).nodup_iff.mp hnodup
  refine Option.ext fun x => ?_
  rw [find?_key_eq_some_iff hnodup, find?_key_eq_some_iff hnodup', h.mem_iff]

/-- Pairs of distinct names all find their way into the record. -/
theorem Record.get?_ofList_of_nodup {pairs : List (String × Value)}
    (hnodup : (pairs.map Prod.fst).Nodup) (name : String) :
    (ofList pairs).get? name = (pairs.find? (·.1 = name)).map Prod.snd := by
  rw [get?_ofList (f := fun name => (pairs.find? (·.1 = name)).map Prod.snd)]
  · split
    · rfl
    · rename_i hother
      have hnone : pairs.find? (·.1 = name) = none := by
        refine List.find?_eq_none.mpr fun pair hpair => ?_
        simp only [decide_eq_true_eq]
        intro hname
        exact hother (hname ▸ List.mem_map_of_mem hpair)
      rw [hnone, Option.map_none]
  · intro pair hpair
    rw [(find?_key_eq_some_iff hnodup).mpr ⟨hpair, rfl⟩]
    rfl

/-- Values of the fields' types have, under each name, the type of the field
of that name. -/
theorem find?_zip_type {fields : List Field} {values : List Value}
    (htypes : values.map Value.type = fields.map Field.type) (name : String) :
    ((((fields.map Field.name).zip values).find? (·.1 = name)).map Prod.snd).map Value.type =
      (fields.find? (·.name = name)).map Field.type := by
  induction fields generalizing values with
  | nil => simp
  | cons field fields ih =>
    cases values with
    | nil => simp at htypes
    | cons value values =>
      rw [List.map_cons, List.map_cons, List.cons.injEq] at htypes
      obtain ⟨hvalue, hvalues⟩ := htypes
      by_cases hname : field.name = name
      · simp [hname, hvalue]
      · simpa [hname] using ih hvalues

namespace Codec

variable {event : Event} {typecheck : Bool} {values : List Value}

theorem forall₂_types {fields : List Field} {values : List Value}
    (h : values.map Value.type = fields.map Field.type) :
    List.Forall₂ (fun (field : Field) (value : Value) => field.type = value.type) fields
      values := by
  have heq : List.Forall₂ Eq (fields.map Field.type) (values.map Value.type) := by
    rw [List.forall₂_eq_eq_eq]
    exact h.symm
  rwa [List.forall₂_map_left_iff, List.forall₂_map_right_iff] at heq

theorem nodup_fields_compile (hnodup : (event.fields.map Field.name).Nodup) :
    ((compile event typecheck).fields.map Field.name).Nodup :=
  ((fields_compile_perm event typecheck).map Field.name).nodup_iff.mpr hnodup

/-- A record made of values holds, under each name, the value that came with
that name. -/
theorem get?_assemble (hnodup : (event.fields.map Field.name).Nodup)
    (htypes : values.map Value.type = (compile event typecheck).fields.map Field.type)
    (name : String) :
    ((compile event typecheck).assemble values).get? name =
      ((((compile event typecheck).fields.map Field.name).zip values).find?
        (·.1 = name)).map Prod.snd := by
  refine Record.get?_ofList_of_nodup ?_ name
  rw [map_fst_zip_names htypes]
  exact nodup_fields_compile hnodup

/-- A record made of values of the declared types has the event's names, each
with a value of its declared type, and no others. -/
theorem get?_assemble_type (hnodup : (event.fields.map Field.name).Nodup)
    (htypes : values.map Value.type = (compile event typecheck).fields.map Field.type)
    (name : String) :
    (((compile event typecheck).assemble values).get? name).map Value.type =
      (event.field? name).map Field.type := by
  rw [get?_assemble hnodup htypes, find?_zip_type htypes,
    find?_key_of_perm (fields_compile_perm event typecheck) (nodup_fields_compile hnodup)]
  rfl

/-- A value that came with a field is found under its name. -/
theorem get?_assemble_of_mem (hnodup : (event.fields.map Field.name).Nodup)
    (htypes : values.map Value.type = (compile event typecheck).fields.map Field.type)
    {field : Field} {value : Value}
    (hmem : (field, value) ∈ (compile event typecheck).fields.zip values) :
    ((compile event typecheck).assemble values).get? field.name = some value := by
  have hpair : (field.name, value) ∈
      ((compile event typecheck).fields.map Field.name).zip values := by
    rw [List.zip_map_left]
    exact List.mem_map.mpr ⟨(field, value), hmem, rfl⟩
  have hnames : (((compile event typecheck).fields.map Field.name).zip values |>.map
      Prod.fst).Nodup := by
    rw [map_fst_zip_names htypes]
    exact nodup_fields_compile hnodup
  rw [get?_assemble hnodup htypes, (find?_key_eq_some_iff hnames).mpr ⟨hpair, rfl⟩]
  rfl

/-- The fields send back the values that a record was made of, checked or
not. -/
theorem sends_assemble (hnodup : (event.fields.map Field.name).Nodup)
    (htypes : values.map Value.type = (compile event typecheck).fields.map Field.type) :
    (compile event typecheck).Sends ((compile event typecheck).assemble values) values := by
  obtain ⟨hlength, htype⟩ := List.forall₂_iff_zip.mp (forall₂_types htypes)
  refine List.forall₂_iff_zip.mpr ⟨hlength, ?_⟩
  intro field value hmem
  exact ⟨value, get?_assemble_of_mem hnodup htypes hmem, .same (htype hmem).symm⟩

/-! ## What is decoded is encoded -/

/-- **Encoding undoes decoding.** With distinct names, a record that was read
after the event's own header is written as the bytes it was read from. -/
theorem encode_of_decode (hnodup : (event.fields.map Field.name).Nodup) {data : Bytes}
    {record : Record} {size : Nat}
    (hheader : data.take (HeaderForm.ofId event.id).width =
      (HeaderForm.ofId event.id).write event.id)
    (h : (compile event typecheck).decode data = .ok (record, size)) :
    size ≤ data.length ∧
      (∀ name, (record.get? name).map Value.type = (event.field? name).map Field.type) ∧
      (compile event typecheck).encode record = .ok (data.take size) := by
  have hplaced := placed_compile event typecheck
  obtain ⟨header, values, rest, hwidth, hfits, rfl, rfl, rfl⟩ := (decode_eq_ok_iff hplaced).mp h
  refine ⟨?_, get?_assemble_type hnodup hfits.types, ?_⟩
  · simp only [List.length_append]
    omega
  · refine (encode_eq_ok_iff hplaced).mpr
      ⟨values, sends_assemble hnodup hfits.types, hfits, ?_⟩
    have hwidth : header.length = (HeaderForm.ofId event.id).width := hwidth
    rw [List.append_assoc, List.take_left' hwidth] at hheader
    rw [List.take_left, hheader]
    rfl

end Codec

namespace Header

/-- A header that was read is what is written for its id in its form. -/
theorem eq_write_of_read? {data : Bytes} {header : Header} (h : read? data = some header) :
    data.take header.form.width = header.form.write header.id := by
  unfold read? at h
  split at h
  · exact nomatch h
  · rename_i first rest
    split at h
    · rename_i hmarker
      split at h
      · rename_i hreach
        cases h
        have hfour : (rest.take 4).length = 4 := by
          rw [List.length_take, Nat.min_eq_left (Bytes.reaches_iff.mp hreach)]
        have hlt : BigEndian.decode (rest.take 4) < UInt32.size := by
          have := BigEndian.decode_lt (rest.take 4)
          rwa [hfour] at this
        have hback := BigEndian.encode_decode (rest.take 4)
        rw [hfour] at hback
        simp only [HeaderForm.width, HeaderForm.write, List.take_succ_cons, hmarker,
          UInt32.toNat_ofNat_of_lt' hlt, hback]
      · exact nomatch h
    · cases h
      simp [HeaderForm.width, HeaderForm.write]

end Header

/-- What is read by a sound schema is written by it as the same bytes. -/
theorem Schema.Sound.encode_decodeFirst {schema : Schema} (h : schema.Sound) {data : Bytes}
    {first : Registry.Decoded} (hdecode : schema.decodeFirst data = .ok first) :
    first.size ≤ data.length ∧
      (∀ name, (first.record.get? name).map Value.type =
        (first.event.field? name).map Field.type) ∧
      schema.encode first.event.name first.record = .ok (data.take first.size) := by
  unfold decodeFirst at hdecode
  split at hdecode
  · exact nomatch hdecode
  · rename_i header hread
    split at hdecode
    · exact nomatch hdecode
    · rename_i event codec hresolve
      -- the header is in the form of its id, and the id is the event's
      unfold resolveHeader at hresolve
      split at hresolve
      · rename_i hcanonical
        obtain ⟨hmem, hid, rfl⟩ := resolve_eq_some hresolve
        cases hbody : (schema.codec event).decode data with
        | error error =>
          rw [hbody] at hdecode
          exact nomatch hdecode
        | ok body =>
          rw [hbody] at hdecode
          obtain rfl := Except.ok.inj hdecode
          have hid : event.id = header.id := by simpa using hid
          have hform : header.form = .ofId header.id := by
            simpa [Header.isCanonical] using hcanonical
          have hheader := Header.eq_write_of_read? hread
          rw [hform, ← hid] at hheader
          unfold encode
          rw [h.resolve_name hmem]
          exact Codec.encode_of_decode (h.nodup_names hmem) hheader hbody
      · exact nomatch hresolve

namespace Registry

/-- **The wire format is canonical.** What a reachable registry decodes takes
no more than the bytes that are there, has exactly the declared names with
values of the declared types, and is encoded as exactly the bytes it was
read from. Bytes read as the same record of the same event are therefore
the same bytes. -/
theorem decodeFirst_canonical {registry : Registry} (h : registry.Reachable) {data : Bytes}
    {first : Decoded} (hdecode : (registry.decodeFirst data).1 = .ok first) :
    first.size ≤ data.length ∧
      (∀ name, (first.record.get? name).map Value.type =
        (first.event.field? name).map Field.type) ∧
      ((registry.decodeFirst data).2.encode first.event.name first.record).1 =
        .ok (data.take first.size) ∧
      ∀ (other : Bytes) (again : Decoded),
        ((registry.decodeFirst data).2.decodeFirst other).1 = .ok again →
        again.event = first.event → again.record = first.record →
        other.take again.size = data.take first.size := by
  rw [decodeFirst_fst] at hdecode
  obtain ⟨hsize, htypes, hencode⟩ := h.sound.encode_decodeFirst hdecode
  refine ⟨hsize, htypes, ?_, ?_⟩
  · rw [encode_fst, schema_decodeFirst]
    exact hencode
  · intro other again hother hevent hrecord
    rw [decodeFirst_fst, schema_decodeFirst] at hother
    obtain ⟨-, -, hagain⟩ := h.sound.encode_decodeFirst hother
    rw [hevent, hrecord, hencode] at hagain
    exact (Except.ok.inj hagain).symm

/-- A registry that converts values, with one event of an extended id. -/
def chatRegistry : Registry :=
  (ofSettings { typecheck := false }).perform
    (.define 300 "chat" [⟨"text", .blob .string⟩, ⟨"at", .scalar .int16⟩])

def chatBytes : Bytes :=
  [0xff, 0x00, 0x00, 0x01, 0x2c, 0x00, 0x00, 0x00, 0x0c, 0xff, 0xfe, 0x00, 0x00, 0x00, 0x02, 0xc3,
    0xa9]

def chatDecoded : Decoded where
  event := ⟨300, "chat", [⟨"at", .scalar .int16⟩, ⟨"text", .blob .string⟩]⟩
  record := .ofList [("at", .scalar (.int16 (-2))), ("text", .string "é")]
  size := 17

theorem decodeFirst_canonical_chat :
    chatRegistry.Reachable ∧
      (chatRegistry.decodeFirst (chatBytes ++ [0x07])).1 = .ok chatDecoded ∧
      ((chatRegistry.decodeFirst (chatBytes ++ [0x07])).2.encode "chat" chatDecoded.record).1 =
        .ok chatBytes := by
  have h : chatRegistry.Reachable := .performed (.created _) _
  have hdecode : (chatRegistry.decodeFirst (chatBytes ++ [0x07])).1 = .ok chatDecoded := by cbv
  obtain ⟨-, -, hencode, -⟩ := decodeFirst_canonical h hdecode
  exact ⟨h, hdecode, hencode⟩

end Registry

end EventWire
