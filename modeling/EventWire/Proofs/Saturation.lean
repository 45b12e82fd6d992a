/-
EventWire.Proofs.Saturation — what becomes of a number in a field of an integer
type when types are not checked.

The field takes every number, so it is never what keeps a record from being
encoded (`Codec.exists_encode_iff`). It sends the number converted to its type
(`Value.SentAs.exists_number`), and the receiver has under the name what was sent
(`Codec.get?_assemble_of_sends`). What the conversion does is said by
`Scalar.integer?_convert`: the number, as exactly as its bits give it, is truncated
toward zero and brought into the range of the type.

The event is any event in which the name stands for the one type. That its names
are distinct is not needed: fields of one name are sent the same value.
-/
import EventWire.Proofs.Acceptance
import EventWire.Proofs.ExactValue
import EventWire.Proofs.Normalization

namespace EventWire

/-! ## What is under a name -/

namespace Record

variable {name : String} {value : Value} {pairs : List (String × Value)}

theorem get?_foldl_insert_of_same (record : Record)
    (hsame : ∀ pair ∈ pairs, pair.1 = name → pair.2 = value) :
    (pairs.foldl (fun record pair => record.insert pair.1 pair.2) record).get? name =
      if name ∈ pairs.map Prod.fst then some value else record.get? name := by
  induction pairs generalizing record with
  | nil => simp
  | cons pair pairs ih =>
    obtain ⟨hpair, hpairs⟩ := List.forall_mem_cons.mp hsame
    rw [List.foldl_cons, ih _ hpairs, get?_insert, List.map_cons]
    by_cases hlater : name ∈ pairs.map Prod.fst
    · simp [hlater]
    · by_cases hname : name = pair.1
      · simp [hname, hpair hname.symm]
      · simp [hname, hlater]

/-- Pairs that agree on a name make up a record that has their value there. -/
theorem get?_ofList_of_same (hmem : name ∈ pairs.map Prod.fst)
    (hsame : ∀ pair ∈ pairs, pair.1 = name → pair.2 = value) :
    (ofList pairs).get? name = some value := by
  rw [ofList, get?_foldl_insert_of_same empty hsame, if_pos hmem]

end Record

namespace Codec

variable {event : Event} {record : Record} {name : String}

/-- A receiver has under a name the value that was sent, if any field of this
name would send the same. -/
theorem get?_assemble_of_sends {sender : Bool} (receiver : Bool) {values : List Value}
    {value : Value} (h : (compile event sender).Sends record values)
    (hname : name ∈ event.fields.map Field.name)
    (hsame : ∀ field ∈ event.fields, field.name = name → ∀ given sent,
      record.get? name = some given → Value.SentAs sender field.type given sent → sent = value) :
    ((compile event receiver).assemble values).get? name = some value := by
  have htypes : values.map Value.type = (compile event receiver).fields.map Field.type := h.types
  have hnames : name ∈
      (((compile event receiver).fields.map Field.name).zip values).map Prod.fst := by
    rw [map_fst_zip_names htypes]
    exact ((fields_compile_perm event receiver).map Field.name).mem_iff.mpr hname
  refine Record.get?_ofList_of_same hnames ?_
  rintro ⟨_, sent⟩ hpair rfl
  obtain ⟨field, hmem, hfield⟩ := mem_zip_names hpair
  obtain ⟨given, hgiven, hsent⟩ := List.forall₂_zip h hmem
  have hdeclared : field ∈ event.fields :=
    (fields_compile_perm event receiver).mem_iff.mp (List.of_mem_zip hmem).1
  exact hsame field hdeclared hfield.symm given sent (hfield ▸ hgiven) hsent

theorem exists_encode_iff (event : Event) (typecheck : Bool) (hroom : event.HasRoom record) :
    (∃ bytes, (compile event typecheck).encode record = .ok bytes) ↔
      ∀ field ∈ event.fields, ∃ value, record.get? field.name = some value ∧
        value.suits typecheck field.type := by
  have hmem (field : Field) : field ∈ event.fields ↔
      field ∈ event.dynamicFields ∨ field ∈ event.staticFields := by
    rw [← (fields_compile_perm event typecheck).mem_iff, fields_compile, List.mem_append, or_comm]
  rw [← error?_eq_none_iff, error?_encode, error?_encodedLength typecheck hroom,
    Option.or_eq_none_iff, List.findSome?_eq_none_iff, List.findSome?_eq_none_iff]
  simp only [Record.fault?_eq_none_iff, hmem, or_imp, forall_and]

/-! ## Integer fields -/

/-- **Conversion to integers saturates exactly.** Types are not checked, a name
stands for one of the integer types, and the record has any number there. Then
this field is no obstacle: if the length can be declared, the record is encoded
as soon as the other fields have something that suits them. Whoever decodes the
encoding, whatever follows it, finds under the name a number of the type. It is
the integer that is left of the exact value of the given number when it is
truncated toward zero and brought into the range of the type, an infinity being
an end of the range and a NaN 0. So an integer of the range stays as it is. -/
theorem encode_saturates {type : ScalarType} {low high : ℤ}
    (hrange : type.range? = some (low, high)) (hfield : ⟨name, .scalar type⟩ ∈ event.fields)
    (hsame : ∀ field ∈ event.fields, field.name = name → field.type = .scalar type)
    {v : Scalar} (hvalue : record.get? name = some (.scalar v)) :
    (event.HasRoom record →
        ((∃ bytes, (compile event false).encode record = .ok bytes) ↔
          ∀ field ∈ event.fields, field.name ≠ name → ∃ value,
            record.get? field.name = some value ∧ value.suits false field.type)) ∧
      ∀ bytes, (compile event false).encode record = .ok bytes → ∃ received number,
        (∀ receiver rest, (compile event receiver).decode (bytes ++ rest) =
          .ok (received, bytes.length)) ∧
        received.get? name = some (.scalar number) ∧ number.type = type ∧
        number.integer? = some (v.quantity.saturate low high) ∧
        ∀ n : ℤ, v.quantity = .rational n → low ≤ n → n ≤ high → number.integer? = some n := by
  constructor
  · intro hroom
    rw [exists_encode_iff event false hroom]
    refine ⟨fun h field hmem _ => h field hmem, fun h field hmem => ?_⟩
    by_cases hname : field.name = name
    · exact ⟨_, hname ▸ hvalue, by rw [hsame field hmem hname]; rfl⟩
    · exact h field hmem hname
  · intro bytes h
    obtain ⟨values, hsends, hfits, rfl⟩ := (encode_eq_ok_iff (placed_compile event false)).mp h
    have hinteger := Scalar.integer?_convert hrange v
    refine ⟨(compile event false).assemble values, v.convert type,
      fun receiver rest => decode_payload receiver hfits rest, ?_, Scalar.type_convert type v,
      hinteger, ?_⟩
    · refine get?_assemble_of_sends false hsends (List.mem_map.mpr ⟨_, hfield, rfl⟩) ?_
      intro field hmem hname given sent hgiven hsent
      rw [hsame field hmem hname] at hsent
      obtain ⟨v', rfl, rfl⟩ := hsent.exists_number
      cases hvalue.symm.trans hgiven
      rfl
    · intro n hn hlow hhigh
      rw [hinteger, hn, Ieee754.Quantity.saturate_of_mem hlow hhigh]

theorem encode_saturates_gauge :
    gaugeGiven.get? "level" = some (.scalar (.float64 ⟨0xc007333333333333⟩)) ∧
      (compile gaugeEvent false).encode gaugeGiven = .ok gaugeBytes ∧
      ∃ received number,
        (∀ receiver rest, (compile gaugeEvent receiver).decode (gaugeBytes ++ rest) =
          .ok (received, gaugeBytes.length)) ∧
        received.get? "level" = some (.scalar number) ∧ number.integer? = some (-2) := by
  have hvalue : gaugeGiven.get? "level" = some (.scalar (.float64 ⟨0xc007333333333333⟩)) := by
    decide +kernel
  have hgiven : (compile gaugeEvent false).encode gaugeGiven = .ok gaugeBytes := by
    decide +kernel
  have hsame : ∀ field ∈ gaugeEvent.fields, field.name = "level" →
      field.type = .scalar .int16 := by decide
  have hrange : ScalarType.int16.range? = some (-0x8000, 0x7fff) := rfl
  -- truncating the bits is what can be computed
  have hsaturated : (Scalar.float64 ⟨0xc007333333333333⟩).quantity.saturate (-0x8000) 0x7fff =
      -2 := by
    rw [Scalar.quantity, ← Ieee754.Binary.truncate_eq_saturate (by decide)]
    decide +kernel
  obtain ⟨-, hdecodes⟩ := encode_saturates hrange (by decide) hsame hvalue
  obtain ⟨received, number, hdecode, hlevel, -, hinteger, -⟩ := hdecodes gaugeBytes hgiven
  exact ⟨hvalue, hgiven, received, number, hdecode, hlevel, hsaturated ▸ hinteger⟩

end Codec

end EventWire
