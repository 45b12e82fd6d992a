/-
EventWire.Proofs.ReadEvents — events that are read from documents.

An event is as a definition leaves it if its names are in order, no field's name comes
twice and its fields are in wire order (`Event.Settled`); these are the events that
their own definition gives again (`define_self_iff`). Of such events, id, name and the
types of the fields by name tell everything (`Settled.eq`): they are all that has ever
gone into one.

Reading does not look at any of it. Whatever an event holds, its document is read as
that event (`faithful_event`), and what is wrong with it is still wrong afterwards. So
two peers of which one has read its events may have the same fields and other bytes.
-/
import EventWire.Document
import EventWire.Proofs.EventValidation
import EventWire.Proofs.RegistrySchema

namespace EventWire

/-! ## Documents read back -/

namespace JsonForm

/-- What is written is read back. -/
def Faithful (α : Type) [JsonForm α] : Prop := ∀ x : α, ofJson? (toJson x) = some x

variable {α : Type} [JsonForm α]

theorem toInt?_int (n : Int) :
    Json.Number.toInt? { negative := n < 0, whole := n.natAbs } = some n := by
  have hsign : (if n < 0 then -(n.natAbs : Int) else n.natAbs) = n := by
    split <;> omega
  have hzero : ¬ (n < 0 ∧ n.natAbs = 0) := by omega
  simp only [Json.Number.toInt?, List.isEmpty_nil, Option.isNone_none, decide_eq_true_eq, hzero,
    not_false_eq_true, and_self, if_true, hsign]

theorem intWithin?_int {low high n : Int} (h : low ≤ n ∧ n ≤ high) :
    Json.intWithin? low high (.int n) = some n := by
  simp [Json.intWithin?, Json.int, toInt?_int, h]

theorem faithful_uint32 : Faithful UInt32 := by
  intro v
  have hrange := v.toNat_lt
  show (Json.intWithin? 0 0xffffffff (.int v.toNat)).map _ = some v
  rw [intWithin?_int (by omega)]
  simp

theorem faithful_string : Faithful String := fun _ => rfl

theorem Faithful.list (h : Faithful α) : Faithful (List α) := by
  intro items
  show (items.map toJson).mapM ofJson? = some items
  induction items with
  | nil => rfl
  | cons item items ih => simp [h item, ih]

theorem faithful_fieldType : Faithful FieldType := by
  intro type
  rcases type with (_ | _ | _ | _ | _) | (_ | _) <;> rfl

theorem faithful_field : Faithful Field := by
  intro field
  have hname : ofJson? (toJson field.name) = some field.name := faithful_string _
  have htype : ofJson? (toJson field.type) = some field.type := faithful_fieldType _
  show (do some (Field.mk (← ofJson? (toJson field.name)) (← ofJson? (toJson field.type)))) = _
  rw [hname, htype]
  rfl

/-- **An event is read as it stands**, whatever it holds. -/
theorem faithful_event : Faithful Event := by
  intro event
  have hid : ofJson? (toJson event.id) = some event.id := faithful_uint32 _
  have hname : ofJson? (toJson event.name) = some event.name := faithful_string _
  have hfields : ofJson? (toJson event.fields) = some event.fields := faithful_field.list _
  show (do some (Event.mk (← ofJson? (toJson event.id)) (← ofJson? (toJson event.name))
    (← ofJson? (toJson event.fields)))) = _
  rw [hid, hname, hfields]
  rfl

end JsonForm

/-! ## Events as definitions leave them -/

namespace Event

/-- The event is as a definition leaves it. -/
structure Settled (event : Event) : Prop where
  valid : Valid event.name event.fields
  ordered : WireOrdered event.fields

variable {event other : Event}

theorem valid_of_define {id : UInt32} {name : String} {fields : List Field}
    (h : define id name fields = .ok event) : Valid name fields := by
  rcases valid_or_refused name fields with hvalid | ⟨error, hrefused⟩
  · exact hvalid
  · rw [define_of_refused hrefused] at h
    exact nomatch h

theorem define_self_iff :
    define event.id event.name event.fields = .ok event ↔ event.Settled := by
  constructor
  · intro h
    exact ⟨valid_of_define h, wireOrdered_of_define h⟩
  · rintro ⟨hvalid, hordered⟩
    have hdefine := @define_of_valid event.id _ _ hvalid
    have hfields := (wireOrdered_of_define hdefine).eq_of_perm hordered
      (fields_perm_of_define hdefine)
    rw [hdefine]
    exact congrArg
      (fun fields => (Except.ok (Event.mk event.id event.name fields) : Except SchemaError Event))
      hfields

theorem Settled.mem_fields_iff (h : event.Settled) {field : Field} :
    field ∈ event.fields ↔ event.field? field.name = some field := by
  rw [field?, find?_key_eq_some_iff h.valid.distinct]
  simp

/-- Id, name and the types by name are all there is to an event. -/
theorem Settled.eq (h : event.Settled) (hother : other.Settled) (hid : event.id = other.id)
    (hname : event.name = other.name) (hfield : ∀ name, event.field? name = other.field? name) :
    event = other := by
  have hperm : event.fields.Perm other.fields := by
    refine (List.perm_ext_iff_of_nodup h.valid.distinct.of_map
      hother.valid.distinct.of_map).mpr fun field => ?_
    rw [h.mem_fields_iff, hother.mem_fields_iff, hfield]
  have hfields := h.ordered.eq_of_perm hother.ordered hperm
  cases event
  cases other
  simp_all

/-- **Events as they are, and as definitions leave them.** Every event has a document
that is read as it. An event is what its own definition gives exactly if its names are
in order, no field's name comes twice and its fields are in wire order. Among such
events, those of one id and one name with the same types by name are the same, so their
codecs and fingerprints are as well. -/
theorem settled_or_as_read (event : Event) :
    ofJson? (toJson event) = some event ∧
      (define event.id event.name event.fields = .ok event ↔ event.Settled) ∧
      ∀ other : Event, event.Settled → other.Settled → event.id = other.id →
        event.name = other.name → (∀ name, event.field? name = other.field? name) →
        event = other := by
  refine ⟨JsonForm.faithful_event event, define_self_iff, ?_⟩
  intro other h hother hid hname hfield
  exact h.eq hother hid hname hfield

/-- A point as a definition leaves it. -/
def point : Event := ⟨1, "spot", [⟨"x", .scalar .byte⟩, ⟨"y", .scalar .byte⟩]⟩

theorem settled_or_as_read_point :
    point.Settled ∧ ofJson? (toJson point) = some point ∧
      ∀ other : Event, other.Settled → point.id = other.id → point.name = other.name →
        (∀ name, point.field? name = other.field? name) → point = other := by
  obtain ⟨hread, hsettled, hsame⟩ := settled_or_as_read point
  have hdefine : define point.id point.name point.fields = .ok point := by cbv
  have hpoint := hsettled.mp hdefine
  exact ⟨hpoint, hread, fun other hother => hsame other hpoint hother⟩

/-- The same point as it may be written down by hand, the second coordinate first. -/
def turnedPoint : Event := ⟨1, "spot", [⟨"y", .scalar .byte⟩, ⟨"x", .scalar .byte⟩]⟩

/-- One place, for either form of a point. -/
def place : Record := .ofList [("x", .scalar (.byte 1)), ("y", .scalar (.byte 2))]

theorem field?_turnedPoint (name : String) : turnedPoint.field? name = point.field? name := by
  by_cases hx : name = "x"
  · subst hx
    rfl
  by_cases hy : name = "y"
  · subst hy
    rfl
  simp [field?, turnedPoint, point, Ne.symm hx, Ne.symm hy]

/-- **Events are read that no definition gives**: one with a reserved name, and one
whose fields are not in wire order. The latter has the id, the name and the types by
name of an event as definitions leave it; its encodings and its fingerprint are others. -/
theorem read_unsettled :
    ofText? "\x7b\"id\":1,\"name\":\"close\",\"fields\":[]\x7d" = some ⟨1, "close", []⟩ ∧
      define 1 "close" [] = .error (.invalidName "close" Name.reservedRule) ∧
      ofText? "[1,\"spot\",[[\"y\",\"Byte\"],[\"x\",\"Byte\"]]]" = some turnedPoint ∧
      define 1 "spot" turnedPoint.fields = .ok point ∧
      (∀ name, turnedPoint.field? name = point.field? name) ∧
      (Codec.compile turnedPoint true).encode place = .ok [1, 2, 1] ∧
      (Codec.compile point true).encode place = .ok [1, 1, 2] ∧
      Fingerprint.ofEvents [turnedPoint] ≠ Fingerprint.ofEvents [point] := by
  have hturned : (Codec.compile turnedPoint true).encode place = .ok [1, 2, 1] := by
    rw [place]
    cbv
  have hpoint : (Codec.compile point true).encode place = .ok [1, 1, 2] := by
    rw [place]
    cbv
  have hprint : Fingerprint.ofEvents [turnedPoint] ≠ Fingerprint.ofEvents [point] := by
    decide +kernel
  exact ⟨by cbv, by cbv, by cbv, by cbv, field?_turnedPoint, hturned, hpoint, hprint⟩

end Event

end EventWire
