/-
EventWire.Proofs.PrefixStability — what more bytes can change.

The decoder looks at the record at the front of some bytes and at nothing
behind it. So once it has given an answer other than that the record is cut
short, more bytes do not change the answer (`Codec.decode_append`,
`Schema.decodeFirst_append`). If it says that the record is cut short it also
says how many bytes it needs, and there are fewer; no bytes that begin with
these and are still fewer are a record (`Codec.needs_of_truncated`,
`Schema.needs_of_truncated`). The number is not always that of the record: as
long as a length has not arrived, it is what all records of the event have.

* `CutShort` — the answer that not all of a record is there.
* `Registry.Settled` — all other answers.

Hence a part of an encoding is never taken for anything but a part
(`Registry.decodeFirst_prefix_stable`).
-/
import EventWire.Proofs.Accounting
import EventWire.Proofs.Delivery

namespace EventWire

/-- The answer that not all of a record is there. -/
def CutShort {α : Type} (answer : Except CodecError α) : Prop :=
  ∃ event need got, answer = .error (.truncated event need got)

theorem not_cutShort_ok {α : Type} (a : α) : ¬ CutShort (.ok a) := by
  rintro ⟨event, need, got, h⟩
  exact nomatch h

theorem cutShort_map_iff {α β : Type} {f : α → β} {answer : Except CodecError α} :
    CutShort (answer.map f) ↔ CutShort answer := by
  simp only [CutShort, map_eq_error_iff]

/-! ## Records of one event -/

namespace Codec

variable {codec : Codec} {data : Bytes} {size : Nat}

/-- **The decoder looks at nothing behind the record**, whatever it finds
there. -/
theorem decode_append (h : ¬ CutShort (codec.decode data)) (more : Bytes) :
    codec.decode (data ++ more) = codec.decode data := by
  cases hextent : codec.extent data with
  | undetermined => exact absurd ⟨_, _, _, decode_of_undetermined hextent⟩ h
  | refused error =>
    have hsettled : codec.extent data ≠ .undetermined := by simp [hextent]
    have hmore := (extent_append hsettled more).trans hextent
    rw [decode_of_refused hextent, decode_of_refused hmore]
  | known size =>
    have hsettled : codec.extent data ≠ .undetermined := by simp [hextent]
    have hmore := (extent_append hsettled more).trans hextent
    by_cases hsize : size ≤ data.length
    · have hsize' : size ≤ (data ++ more).length := by
        rw [List.length_append]
        omega
      rw [decode_of_known hextent hsize, decode_of_known hmore hsize',
        List.take_append_of_le_length hsize]
    · exact absurd ⟨_, _, _, decode_of_short hextent (Nat.not_le.mp hsize)⟩ h

/-- A record that is known to end somewhere has its layout's fixed portion. -/
theorem fixedPortion_le_of_extent (h : codec.extent data = .known size) :
    codec.layout.fixedPortion ≤ size := by
  rw [extent_eq_known_iff] at h
  split at h
  · rename_i hfixed
    have hcount : codec.layout.dynamicCount = 0 := by simpa [Layout.isFixedSize] using hfixed
    simp [h, Layout.fixedPortion, Layout.dynamicOffset, Layout.staticOffset, hfixed, hcount]
  · obtain ⟨-, hmin, hsize⟩ := h
    rw [Layout.minDeclared] at hmin
    omega

/-- Where the length has not arrived, there is less than any record has. -/
theorem length_lt_of_undetermined (h : codec.extent data = .undetermined) :
    data.length < codec.layout.fixedPortion := by
  unfold extent at h
  split at h
  · exact nomatch h
  · split at h
    · split at h <;> exact nomatch h
    · rename_i hreach
      rw [Bytes.reaches_iff] at hreach
      simp only [Layout.fixedPortion, Layout.dynamicOffset]
      omega

/-- What can be said of bytes that are not decoded. -/
theorem decode_error_cases {error : CodecError} (h : codec.decode data = .error error) :
    (∃ need, error = .truncated codec.name need data.length) ∨
      (∃ event declared reason, error = .invalidLength event declared reason) ∨
      error.isBodyError := by
  cases hextent : codec.extent data with
  | undetermined =>
    rw [decode_of_undetermined hextent] at h
    cases h
    exact .inl ⟨_, rfl⟩
  | refused refusal =>
    rw [decode_of_refused hextent] at h
    cases h
    exact .inr (.inl (eq_invalidLength_of_extent hextent))
  | known size =>
    by_cases hsize : size ≤ data.length
    · rw [decode_of_known hextent hsize, map_eq_error_iff] at h
      exact .inr (.inr (isBodyError_of_decodeWhole h))
    · rw [decode_of_short hextent (Nat.not_le.mp hsize)] at h
      cases h
      exact .inl ⟨_, rfl⟩

/-- A record that is cut short needs more bytes than there are, and there is no
record in fewer than it needs. -/
theorem needs_of_truncated {event : String} {need got : Nat}
    (h : codec.decode data = .error (.truncated event need got)) :
    got = data.length ∧ data.length < need ∧ ∀ more record size,
      codec.decode (data ++ more) = .ok (record, size) → need ≤ (data ++ more).length := by
  cases hextent : codec.extent data with
  | undetermined =>
    rw [decode_of_undetermined hextent] at h
    cases h
    refine ⟨rfl, length_lt_of_undetermined hextent, ?_⟩
    intro more record size hmore
    obtain ⟨hknown, hsize, -⟩ := decode_eq_ok_iff_extent.mp hmore
    exact (fixedPortion_le_of_extent hknown).trans hsize
  | refused error =>
    rw [decode_of_refused hextent] at h
    obtain ⟨_, _, _, rfl⟩ := eq_invalidLength_of_extent hextent
    exact nomatch h
  | known extent =>
    by_cases hreach : extent ≤ data.length
    · rw [decode_of_known hextent hreach, map_eq_error_iff] at h
      exact nomatch isBodyError_of_decodeWhole h
    · rw [decode_of_short hextent (Nat.not_le.mp hreach)] at h
      cases h
      refine ⟨rfl, Nat.not_le.mp hreach, ?_⟩
      intro more record size hmore
      obtain ⟨hknown, hsize, -⟩ := decode_eq_ok_iff_extent.mp hmore
      have hsettled : codec.extent data ≠ .undetermined := by simp [hextent]
      rw [extent_append hsettled more, hextent] at hknown
      cases hknown
      exact hsize

end Codec

/-! ## Records of any event -/

namespace Header

/-- A header that is cut short is empty, or the beginning of one with a
marker. -/
theorem read?_eq_none_iff {data : Bytes} :
    read? data = none ↔ data = [] ∨ ∃ rest, data = extendedMarker :: rest ∧ rest.length < 4 := by
  cases data with
  | nil => simp [read?]
  | cons first rest =>
    by_cases hmarker : first = extendedMarker
    · simp [read?, hmarker]
    · simp [read?, hmarker]

end Header

namespace Registry

/-- The answers that do not ask for more bytes. -/
inductive Settled : Except CodecError Decoded → Prop
  | record (first : Decoded) : Settled (.ok first)
  | unknownPacket (id : UInt32) : Settled (.error (.unknownPacket id 0))
  | invalidLength (event : String) (declared : Nat) (reason : String) :
      Settled (.error (.invalidLength event declared reason))
  | malformed (event reason : String) : Settled (.error (.malformed event reason))
  | invalidUtf8 (event field : String) (validUpTo : Nat) :
      Settled (.error (.invalidUtf8 event field validUpTo))

theorem settled_of_isBodyError {error : CodecError} (h : error.isBodyError) :
    Settled (.error error) := by
  cases error with
  | malformed event reason => exact .malformed event reason
  | invalidUtf8 event field validUpTo => exact .invalidUtf8 event field validUpTo
  | _ => exact nomatch h

/-- A header that is cut short needs more bytes than there are, and is no whole
header in fewer than it needs. -/
theorem needs_of_truncatedHeader {data : Bytes} (h : Header.read? data = none) :
    ∃ event need, truncatedHeader data = .truncated event need data.length ∧
      data.length < need ∧ ∀ more header,
        Header.read? (data ++ more) = some header → need ≤ (data ++ more).length := by
  rcases Header.read?_eq_none_iff.mp h with rfl | ⟨rest, rfl, hrest⟩
  · refine ⟨_, _, rfl, by decide, ?_⟩
    intro more header hmore
    cases more with
    | nil => simp [Header.read?] at hmore
    | cons first more => simp [HeaderForm.width]
  · refine ⟨_, _, rfl, by simp [HeaderForm.width]; omega, ?_⟩
    intro more header hmore
    have hlength : ¬ (rest ++ more).length < 4 := by
      intro hshort
      have hnone := Header.read?_eq_none_iff.mpr (.inr ⟨rest ++ more, rfl, hshort⟩)
      rw [List.cons_append, hnone] at hmore
      cases hmore
    simp only [List.isEmpty_cons, Bool.false_eq_true, if_false, HeaderForm.width,
      List.cons_append, List.length_cons]
    omega

end Registry

namespace Schema

variable {schema : Schema} {data : Bytes}

/-- The answer is decided by the header being cut short, by no event having it,
or by the codec of the event that has. If the header is there, so it is
whatever follows. -/
theorem decodeFirst_cases (schema : Schema) (data : Bytes) :
    (Header.read? data = none ∧
        schema.decodeFirst data = .error (Registry.truncatedHeader data)) ∨
      (∃ id, schema.decodeFirst data = .error (.unknownPacket id 0) ∧
        ∀ more, schema.decodeFirst (data ++ more) = .error (.unknownPacket id 0)) ∨
      ∃ (event : Event) (codec : Codec),
        let named := Except.map fun (record, size) => Registry.Decoded.mk event record size
        schema.decodeFirst data = named (codec.decode data) ∧
          ∀ more, schema.decodeFirst (data ++ more) = named (codec.decode (data ++ more)) := by
  cases hread : Header.read? data with
  | none => exact .inl ⟨rfl, by simp [decodeFirst, hread]⟩
  | some header =>
    cases hresolve : schema.resolveHeader header with
    | none =>
      refine .inr (.inl ⟨header.id, by simp [decodeFirst, hread, hresolve], ?_⟩)
      intro more
      simp [decodeFirst, Header.read?_append hread more, hresolve]
    | some resolved =>
      refine .inr (.inr ⟨resolved.1, resolved.2, by simp [decodeFirst, hread, hresolve], ?_⟩)
      intro more
      simp [decodeFirst, Header.read?_append hread more, hresolve]

/-- An answer that does not ask for more bytes is one of five. -/
theorem settled_of_not_cutShort (h : ¬ CutShort (schema.decodeFirst data)) :
    Registry.Settled (schema.decodeFirst data) := by
  rcases decodeFirst_cases schema data with
    ⟨-, hnone⟩ | ⟨id, hunknown, -⟩ | ⟨event, codec, hcodec, -⟩
  · exact absurd ⟨_, _, _, hnone⟩ h
  · rw [hunknown]
    exact .unknownPacket id
  · rw [hcodec, cutShort_map_iff] at h
    rw [hcodec]
    cases hdecode : codec.decode data with
    | ok first => exact .record _
    | error error =>
      rw [hdecode] at h
      rcases Codec.decode_error_cases hdecode with
        ⟨need, rfl⟩ | ⟨event, declared, reason, rfl⟩ | hbody
      · exact absurd ⟨_, _, _, rfl⟩ h
      · exact .invalidLength event declared reason
      · exact Registry.settled_of_isBodyError hbody

/-- **What is settled stays so**: more bytes change no answer but that a record
is cut short. -/
theorem decodeFirst_append (h : ¬ CutShort (schema.decodeFirst data)) (more : Bytes) :
    schema.decodeFirst (data ++ more) = schema.decodeFirst data := by
  rcases decodeFirst_cases schema data with
    ⟨-, hnone⟩ | ⟨id, hunknown, hlater⟩ | ⟨event, codec, hcodec, hlater⟩
  · exact absurd ⟨_, _, _, hnone⟩ h
  · rw [hlater, hunknown]
  · rw [hcodec, cutShort_map_iff] at h
    rw [hlater, hcodec, Codec.decode_append h]

/-- What is cut short needs more bytes than there are, and there is no record in
fewer than it needs. -/
theorem needs_of_truncated {event : String} {need got : Nat}
    (h : schema.decodeFirst data = .error (.truncated event need got)) :
    got = data.length ∧ data.length < need ∧ ∀ more first,
      schema.decodeFirst (data ++ more) = .ok first → need ≤ (data ++ more).length := by
  rcases decodeFirst_cases schema data with
    ⟨hread, hnone⟩ | ⟨id, hunknown, -⟩ | ⟨found, codec, hcodec, hlater⟩
  · obtain ⟨_, _, htruncated, hshort, hneeds⟩ := Registry.needs_of_truncatedHeader hread
    rw [hnone, htruncated] at h
    cases h
    refine ⟨rfl, hshort, ?_⟩
    intro more first hmore
    cases hheader : Header.read? (data ++ more) with
    | none => simp [decodeFirst, hheader] at hmore
    | some header => exact hneeds more header hheader
  · rw [hunknown] at h
    cases h
  · rw [hcodec, map_eq_error_iff] at h
    obtain ⟨hgot, hshort, hneeds⟩ := Codec.needs_of_truncated h
    refine ⟨hgot, hshort, ?_⟩
    intro more first hmore
    rw [hlater, map_eq_ok_iff] at hmore
    obtain ⟨body, hbody, -⟩ := hmore
    exact hneeds more body.1 body.2 hbody

theorem size_le_of_decodeFirst {first : Registry.Decoded}
    (h : schema.decodeFirst data = .ok first) : first.size ≤ data.length := by
  rcases decodeFirst_cases schema data with
    ⟨-, hnone⟩ | ⟨id, hunknown, -⟩ | ⟨event, codec, hcodec, -⟩
  · rw [hnone] at h
    cases h
  · rw [hunknown] at h
    cases h
  · rw [hcodec, map_eq_ok_iff] at h
    obtain ⟨body, hbody, rfl⟩ := h
    exact (Codec.decode_eq_ok_iff_extent.mp hbody).2.1

/-- A part of some bytes that is shorter than the record at their front is cut
short. -/
theorem cutShort_of_lt {first : Registry.Decoded} {rest : Bytes}
    (h : schema.decodeFirst (data ++ rest) = .ok first) (hsize : data.length < first.size) :
    CutShort (schema.decodeFirst data) := by
  by_contra hsettled
  rw [decodeFirst_append hsettled] at h
  exact absurd (size_le_of_decodeFirst h) (Nat.not_le.mpr hsize)

/-- What a sound schema encodes it decodes, all of it. -/
theorem Sound.decodeFirst_encode (h : schema.Sound) {name : String} {record : Record}
    {encoding : Bytes} (hencode : schema.encode name record = .ok encoding) :
    ∃ first, schema.decodeFirst encoding = .ok first ∧ first.size = encoding.length := by
  obtain ⟨event, codec, hresolve, hbytes⟩ := encode_eq_ok_iff.mp hencode
  obtain ⟨hmem, -, rfl⟩ := resolve_eq_some hresolve
  obtain ⟨received, -, hframe⟩ := nextFrame_written h hmem hbytes 0 []
  obtain ⟨found, -, hdecode⟩ := decodeFirst_take hframe
  rw [List.append_nil, List.take_length] at hdecode
  exact ⟨_, hdecode, rfl⟩

end Schema

namespace Registry

/-- **Decoding is stable under more bytes.** Whatever a reachable registry says
of some bytes, unless it is that a record is cut short, it is one of five
answers, and it says the same of these bytes with any others behind them. If
it says that a record is cut short it tells how many bytes it was given and
how many it needs, which is more, and no bytes that begin with these and are
fewer than it needs are decoded. So each proper part of an encoding, from its
beginning, is cut short. -/
theorem decodeFirst_prefix_stable {registry : Registry} (h : registry.Reachable) (data : Bytes) :
    let answer := (registry.decodeFirst data).1
    let after := (registry.decodeFirst data).2
    (¬ CutShort answer →
        Settled answer ∧ ∀ more, (after.decodeFirst (data ++ more)).1 = answer) ∧
      (∀ event need got, answer = .error (.truncated event need got) →
        got = data.length ∧ data.length < need ∧
          ∀ more, (data ++ more).length < need →
            ∀ first, (after.decodeFirst (data ++ more)).1 ≠ .ok first) ∧
      (∀ name record encoding, (registry.encode name record).1 = .ok encoding →
        data <+: encoding → data ≠ encoding → CutShort answer) := by
  intro answer after
  have hanswer : answer = registry.schema.decodeFirst data := decodeFirst_fst ..
  have hafter (bytes : Bytes) :
      (after.decodeFirst bytes).1 = registry.schema.decodeFirst bytes := by
    rw [decodeFirst_fst, schema_decodeFirst]
  simp only [hafter, hanswer]
  refine ⟨?_, ?_, ?_⟩
  · intro hsettled
    exact ⟨Schema.settled_of_not_cutShort hsettled, Schema.decodeFirst_append hsettled⟩
  · intro event need got htruncated
    obtain ⟨hgot, hshort, hneeds⟩ := Schema.needs_of_truncated htruncated
    refine ⟨hgot, hshort, ?_⟩
    intro more hfewer first hmore
    exact absurd (hneeds more first hmore) (Nat.not_le.mpr hfewer)
  · intro name record encoding hencode hprefix hproper
    rw [encode_fst] at hencode
    obtain ⟨rest, rfl⟩ := hprefix
    obtain ⟨first, hdecode, hsize⟩ := h.sound.decodeFirst_encode hencode
    refine Schema.cutShort_of_lt hdecode ?_
    have hrest : rest ≠ [] := by
      rintro rfl
      exact hproper (List.append_nil data).symm
    have := List.length_pos_of_ne_nil hrest
    rw [hsize, List.length_append]
    omega

/-- Nine bytes of a record of seventeen: its length has arrived. -/
theorem decodeFirst_prefix_stable_chat :
    chatRegistry.Reachable ∧
      (chatRegistry.decodeFirst (chatBytes.take 9)).1 = .error (.truncated "chat" 17 9) ∧
      (∀ more, (chatBytes.take 9 ++ more).length < 17 → ∀ first,
        ((chatRegistry.decodeFirst (chatBytes.take 9)).2.decodeFirst
          (chatBytes.take 9 ++ more)).1 ≠ .ok first) ∧
      ((chatRegistry.decodeFirst chatBytes).2.decodeFirst (chatBytes ++ [0x07])).1 =
        .ok chatDecoded := by
  have h : chatRegistry.Reachable := .performed (.created _) _
  have htruncated : (chatRegistry.decodeFirst (chatBytes.take 9)).1 =
      .error (.truncated "chat" 17 9) := by cbv
  have hdecode : (chatRegistry.decodeFirst chatBytes).1 = .ok chatDecoded := by cbv
  obtain ⟨-, hneeds, -⟩ := decodeFirst_prefix_stable h (chatBytes.take 9)
  obtain ⟨-, -, hnone⟩ := hneeds _ _ _ htruncated
  obtain ⟨hstable, -, -⟩ := decodeFirst_prefix_stable h chatBytes
  obtain ⟨-, hmore⟩ := hstable (by rw [hdecode]; exact not_cutShort_ok _)
  exact ⟨h, htruncated, hnone, (hmore [0x07]).trans hdecode⟩

end Registry

end EventWire
