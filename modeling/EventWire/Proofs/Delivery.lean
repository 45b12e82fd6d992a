/-
EventWire.Proofs.Delivery — what one peer sends, the other receives.

The sender encodes some records, the receiver feeds their bytes to a framer
in whatever chunks they arrive. Everything needed is in place, and meets in
one place, the frame of a single record:

* the receiver has the event of every record that the sender can encode
  (`Registry.mem_defined_iff`);
* it reads the record's bytes back, whatever follows them
  (`Codec.decode_written`);
* the record it makes of them has the declared names and types
  (`Codec.get?_assemble_type`).

So the frame at the front of the stream is the first record
(`Schema.nextFrame_written`), by induction a scan of the stream says what
was sent (`Schema.scan_written`), and a framer reports that scan
(`Framer.feedAll_reports`, `Framer.callsOf_eq_scan`).

A sender that converts values does not send what it was given. What a
record must keep on the way is therefore stated field by field
(`Event.Conveys`).
-/
import EventWire.Proofs.Agreement
import EventWire.Proofs.Canonical
import EventWire.Proofs.Framing

namespace EventWire

/-! ## One record -/

/-- A record arrives with the declared names and types, and a field whose
value was of the declared type arrives as it was. -/
structure Event.Conveys (event : Event) (sent received : Record) : Prop where
  types : ∀ name, (received.get? name).map Value.type = (event.field? name).map Field.type
  same : ∀ name field value, event.field? name = some field → sent.get? name = some value →
    value.type = field.type → received.get? name = some value

namespace Codec

variable {event : Event} {record : Record} {values : List Value}

/-- For each field a receiver has what the field sent for what it was given. -/
theorem Sends.exists_sent {sender : Bool} (receiver : Bool)
    (hnodup : (event.fields.map Field.name).Nodup)
    (h : (compile event sender).Sends record values) {field : Field}
    (hfield : field ∈ event.fields) :
    ∃ given sent, record.get? field.name = some given ∧
      ((compile event receiver).assemble values).get? field.name = some sent ∧
      Value.SentAs sender field.type given sent := by
  have htypes : values.map Value.type = (compile event receiver).fields.map Field.type := h.types
  have hfields : ((compile event receiver).fields.zip values).map Prod.fst =
      (compile event receiver).fields := List.map_fst_zip (List.Forall₂.length_eq h).le
  rw [← (fields_compile_perm event receiver).mem_iff, ← hfields] at hfield
  obtain ⟨⟨field, sent⟩, hmem, rfl⟩ := List.mem_map.mp hfield
  obtain ⟨given, hgiven, hsent⟩ := List.forall₂_zip h hmem
  exact ⟨given, sent, hgiven, get?_assemble_of_mem hnodup htypes hmem, hsent⟩

/-- A receiver of the same event makes of the values that the fields send
what the event conveys. -/
theorem Sends.conveys {sender : Bool} (receiver : Bool)
    (hnodup : (event.fields.map Field.name).Nodup)
    (h : (compile event sender).Sends record values) :
    event.Conveys record ((compile event receiver).assemble values) := by
  have htypes : values.map Value.type = (compile event receiver).fields.map Field.type := h.types
  refine ⟨get?_assemble_type hnodup htypes, ?_⟩
  intro name field value hfield hvalue htype
  obtain ⟨hmem, rfl⟩ := (find?_key_eq_some_iff hnodup).mp hfield
  obtain ⟨given, sent, hgiven, hreceived, hsent⟩ := h.exists_sent receiver hnodup hmem
  obtain rfl := Option.some.inj (hgiven.symm.trans hvalue)
  rw [hreceived, hsent.eq_of_type_eq htype]

theorem nextFrame_of_decode {codec : Codec} {data : Bytes} {size : Nat}
    (h : codec.decode data = .ok (record, size)) :
    codec.nextFrame data = .whole codec.name size (.ok record) := by
  obtain ⟨hextent, hsize, hwhole⟩ := decode_eq_ok_iff_extent.mp h
  rw [nextFrame_of_known hextent hsize, hwhole]

end Codec

namespace Schema

variable {schema : Schema} {event : Event} {record : Record} {bytes : Bytes}

theorem encode_eq_ok_iff {name : String} :
    schema.encode name record = .ok bytes ↔ ∃ event codec,
      schema.resolve (·.name = name) = some (event, codec) ∧ codec.encode record = .ok bytes := by
  unfold encode
  cases schema.resolve (·.name = name) with
  | none => simp
  | some resolved =>
    obtain ⟨event, codec⟩ := resolved
    simp

/-- **The frame of a record.** Where a record of one of its events has been
written, by a peer that checks types or not, a sound schema frames exactly
its bytes, as a record that conveys it. -/
theorem nextFrame_written (h : schema.Sound) (hmem : event ∈ schema.events) {typecheck : Bool}
    (hencode : (Codec.compile event typecheck).encode record = .ok bytes) (offset : Nat)
    (rest : Bytes) :
    ∃ received, event.Conveys record received ∧
      schema.nextFrame offset (bytes ++ rest) = .whole event.name bytes.length (.ok received) := by
  obtain ⟨values, hsends, hdecode⟩ :=
    Codec.decode_written schema.settings.typecheck hencode rest
  refine ⟨_, hsends.conveys schema.settings.typecheck (h.nodup_names hmem), ?_⟩
  have hread : Header.read? (bytes ++ rest) = some ⟨event.id, .ofId event.id⟩ := by
    obtain ⟨payload, rfl⟩ := Codec.encode_eq_header_append hencode
    rw [List.append_assoc, Header.read?_write]
  have hresolve : schema.resolveHeader ⟨event.id, .ofId event.id⟩ =
      some (event, schema.codec event) := by
    rw [resolveHeader, if_pos (by simp [Header.isCanonical]), h.resolve_id hmem]
  unfold nextFrame
  rw [hread]
  simp only [hresolve]
  exact Codec.nextFrame_of_decode hdecode

end Schema

/-! ## Any number of records -/

namespace Registry

/-- What is said of a record that is to be consumed. -/
def consumed (item : String × Record) : Call := .consume item.1 item.2

theorem countP_consumed (items : List (String × Record)) :
    (items.map consumed).countP Call.isConsume = items.length := by
  rw [List.countP_map]
  exact List.countP_eq_length.mpr fun _ _ => rfl

/-- A record that was sent arrives: under its name, and as what the event of
that name, which the peers share, conveys. -/
def Arrives (sender receiver : Registry) (sent received : String × Record) : Prop :=
  received.1 = sent.1 ∧ ∃ event, sender.eventOfName? sent.1 = some event ∧
    receiver.eventOfName? sent.1 = some event ∧ event.Conveys sent.2 received.2

variable {sender receiver : Registry} {items : List (String × Record)} {encodings : List Bytes}

/-- **A scan says what was sent**, and leaves nothing. -/
theorem scan_written (h : receiver.schema.Sound)
    (hevents : ∀ event, event ∈ sender.defined → event ∈ receiver.defined)
    (hencode : List.Forall₂ (fun item bytes => sender.schema.encode item.1 item.2 = .ok bytes)
      items encodings) (offset : Nat) :
    ∃ received, List.Forall₂ (Arrives sender receiver) items received ∧
      (receiver.schema.scan offset encodings.flatten).calls = received.map consumed ∧
      (receiver.schema.scan offset encodings.flatten).error = none ∧
      (receiver.schema.scan offset encodings.flatten).rest = [] := by
  induction hencode generalizing offset with
  | nil =>
    have hframe : receiver.schema.nextFrame offset [] = .incomplete := rfl
    have hscan := Schema.scan_incomplete hframe
    exact ⟨[], .nil, by simp [hscan]⟩
  | @cons item bytes items encodings hitem _ ih =>
    obtain ⟨event, codec, hresolve, hbytes⟩ := Schema.encode_eq_ok_iff.mp hitem
    obtain ⟨hmem, hname, rfl⟩ := Schema.resolve_eq_some hresolve
    have hname : event.name = item.1 := by simpa using hname
    obtain ⟨record, hconveys, hframe⟩ :=
      Schema.nextFrame_written h (hevents event hmem) hbytes offset encodings.flatten
    obtain ⟨received, harrives, hcalls, herror, hrest⟩ := ih (offset + bytes.length)
    have hscan := Schema.scan_whole hframe
    rw [List.drop_left] at hscan
    have hsent : sender.eventOfName? item.1 = some event := by
      obtain ⟨found, hfound, hpair⟩ := Option.map_eq_some_iff.mp hresolve
      cases hpair
      exact hfound
    have hreceived : receiver.eventOfName? item.1 = some event :=
      (find?_key_eq_some_iff h.names).mpr ⟨hevents event hmem, hname⟩
    rw [List.flatten_cons, hscan]
    refine ⟨(event.name, record) :: received,
      .cons ⟨hname, event, hsent, hreceived, hconveys⟩ harrives, ?_, herror, hrest⟩
    rw [List.map_cons, ← hcalls]
    rfl

/-- The encodings of some records of named events, one after the other. -/
def encodeAll (registry : Registry) :
    List (String × Record) → Except CodecError (List Bytes) × Registry
  | [] => (.ok [], registry)
  | item :: items =>
    match registry.encode item.1 item.2 with
    | (.error error, after) => (.error error, after)
    | (.ok bytes, after) =>
      let (encodings, after) := after.encodeAll items
      (encodings.map (bytes :: ·), after)

theorem encodeAll_eq_ok {registry : Registry} (h : (registry.encodeAll items).1 = .ok encodings) :
    List.Forall₂ (fun item bytes => registry.schema.encode item.1 item.2 = .ok bytes) items
      encodings := by
  induction items generalizing registry encodings with
  | nil =>
    cases h
    exact .nil
  | cons item items ih =>
    have hfst := encode_fst registry item.1 item.2
    have hschema := schema_encode registry item.1 item.2
    unfold encodeAll at h
    split at h
    · exact nomatch h
    · rename_i bytes after hitem
      rw [hitem] at hfst hschema
      simp only at hfst hschema h
      cases hrest : (after.encodeAll items).1 with
      | error error =>
        rw [hrest] at h
        exact nomatch h
      | ok others =>
        rw [hrest] at h
        cases h
        have hothers := ih hrest
        rw [hschema] at hothers
        exact .cons hfst.symm hothers

/-- **Delivery, end to end.** Two registries are built by accepted definitions
of the same events, in any order and with their fields in any order, each
with settings of its own. What the one encodes is cut into chunks anywhere
and fed to a fresh framer over the other, without limit and with a consumer
that never fails. Then every chunk is answered with a count, and the counts
make up the number of records; the calls made to the consumer are one for
each record, in order, and none rejects; nothing is pending and the framer
has not halted. Each record arrives with the declared names and types, and
each of its values that was of the declared type arrives as it was. -/
theorem feedAll_delivers {σ : Type} {definitions definitions' : List Definition}
    {settings settings' : RegistrySettings} {chunks : List Bytes} {consumer : Consumer σ}
    (hsame : Definition.SameEvents definitions definitions')
    (hsender : (ofSettings settings).defineAll definitions = .ok sender)
    (hreceiver : (ofSettings settings').defineAll definitions' = .ok receiver)
    (hencode : (sender.encodeAll items).1 = .ok encodings)
    (hchunks : chunks.flatten = encodings.flatten) (hnever : consumer.NeverFails) (start : σ) :
    let run := Framer.feedAll {} consumer receiver chunks start
    ∃ (counts : List Nat) (received : List (String × Record)),
      run.results = counts.map .ok ∧ counts.sum = items.length ∧
      Framer.callsOf {} consumer receiver chunks start = received.map consumed ∧
      run.framer.isHalted = false ∧ run.framer.pending = [] ∧
      List.Forall₂ (Arrives sender receiver) items received := by
  intro run
  have hempty : (ofSettings settings').schema.Sound := Schema.sound_empty settings'
  have hsound : receiver.schema.Sound := sound_defineAll hempty hreceiver
  obtain ⟨received, harrives, hcalls, herror, hrest⟩ := scan_written hsound
    (fun event => (mem_defined_iff hsame hsender hreceiver event).mp) (encodeAll_eq_ok hencode) 0
  have hreports := Framer.feedAll_reports hnever receiver chunks start
  rw [hchunks] at hreports
  obtain ⟨counts, hresults, hsum⟩ := hreports.counts herror
  refine ⟨counts, received, hresults, ?_, ?_, ?_, (hreports.pending herror).trans hrest, harrives⟩
  · rw [hsum, Scan.delivered, hcalls, countP_consumed, harrives.length_eq]
  · rw [Framer.callsOf_eq_scan hnever, hchunks, hcalls]
  · rw [Framer.isHalted, hreports.halted, herror]
    rfl

/-- Two events, as the one peer writes them down. -/
def talkDefinitions : List Definition :=
  [⟨7, "say", [⟨"text", .blob .string⟩]⟩,
    ⟨300, "chat", [⟨"text", .blob .string⟩, ⟨"at", .scalar .int16⟩]⟩]

/-- The same events, as the other peer does. -/
def talkDefinitions' : List Definition :=
  [⟨300, "chat", [⟨"at", .scalar .int16⟩, ⟨"text", .blob .string⟩]⟩,
    ⟨7, "say", [⟨"text", .blob .string⟩]⟩]

theorem sameEvents_talk : Definition.SameEvents talkDefinitions talkDefinitions' := by
  have hsay : Definition.Same ⟨7, "say", [⟨"text", .blob .string⟩]⟩
      ⟨7, "say", [⟨"text", .blob .string⟩]⟩ := ⟨rfl, rfl, .refl _⟩
  have hchat : Definition.Same
      ⟨300, "chat", [⟨"text", .blob .string⟩, ⟨"at", .scalar .int16⟩]⟩
      ⟨300, "chat", [⟨"at", .scalar .int16⟩, ⟨"text", .blob .string⟩]⟩ :=
    ⟨rfl, rfl, .swap ..⟩
  constructor
  · intro a ha
    rcases List.mem_pair.mp ha with rfl | rfl
    · exact ⟨_, by simp [talkDefinitions'], hsay⟩
    · exact ⟨_, by simp [talkDefinitions'], hchat⟩
  · intro b hb
    rcases List.mem_pair.mp hb with rfl | rfl
    · exact ⟨_, by simp [talkDefinitions], hchat⟩
    · exact ⟨_, by simp [talkDefinitions], hsay⟩

/-- A sender that converts values. -/
def talkSender : Registry :=
  ((ofSettings { typecheck := false }).perform (.define 7 "say" [⟨"text", .blob .string⟩])).perform
    (.define 300 "chat" [⟨"text", .blob .string⟩, ⟨"at", .scalar .int16⟩])

/-- A receiver with room for one compact event. -/
def talkReceiver : Registry :=
  ((ofSettings { maxCompactEvents := 1 }).perform
    (.define 300 "chat" [⟨"at", .scalar .int16⟩, ⟨"text", .blob .string⟩])).perform
      (.define 7 "say" [⟨"text", .blob .string⟩])

def talkItems : List (String × Record) :=
  [("chat", .ofList [("at", .scalar (.int16 (-2))), ("text", .string "é")]),
    ("say", .ofList [("text", .bytes [0x68, 0x69])])]

def talkEncodings : List Bytes :=
  [[0xff, 0x00, 0x00, 0x01, 0x2c, 0x00, 0x00, 0x00, 0x0c, 0xff, 0xfe, 0x00, 0x00, 0x00, 0x02,
      0xc3, 0xa9],
    [0x07, 0x00, 0x00, 0x00, 0x0a, 0x00, 0x00, 0x00, 0x02, 0x68, 0x69]]

theorem feedAll_delivers_talk :
    let chunks := talkEncodings.flatten.map ([·])
    let run := Framer.feedAll {} Consumer.collector talkReceiver chunks []
    (talkSender.encodeAll talkItems).1 = .ok talkEncodings ∧
      ∃ (counts : List Nat) (received : List (String × Record)),
        run.results = counts.map .ok ∧ counts.sum = 2 ∧
        Framer.callsOf {} Consumer.collector talkReceiver chunks [] = received.map consumed ∧
        run.framer.isHalted = false ∧ run.framer.pending = [] ∧
        List.Forall₂ (Arrives talkSender talkReceiver) talkItems received := by
  have hsender : (ofSettings { typecheck := false }).defineAll talkDefinitions =
      .ok talkSender := by cbv
  have hreceiver : (ofSettings { maxCompactEvents := 1 }).defineAll talkDefinitions' =
      .ok talkReceiver := by cbv
  have hencode : (talkSender.encodeAll talkItems).1 = .ok talkEncodings := by cbv
  have hchunks : (talkEncodings.flatten.map ([·])).flatten = talkEncodings.flatten := by decide
  exact ⟨hencode, feedAll_delivers sameEvents_talk hsender hreceiver hencode hchunks
    (fun _ _ _ => rfl) []⟩

end Registry

end EventWire
