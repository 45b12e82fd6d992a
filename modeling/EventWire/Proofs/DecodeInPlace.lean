/-
EventWire.Proofs.DecodeInPlace — no bytes make a decoder read past the end.

A decoder need not take its input apart. It can stay with one buffer and read stretches
of it by their positions: the header at the front, the declared length behind it, each
static field at the offset of its slot, each dynamic field at a cursor
(`Codec.decodeInPlace`), and so on from record to record (`Draining.run`). Such a
stretch may be one that is not there, and then everything ends (`Bytes.between`). Most
stretches are read without a look at where the buffer ends. Whether they are there depends
on a length that a peer has declared, and on places that were worked out long before.

They always are. The least length that may be declared covers the fixed portion, and the
slots tile it (`Codec.Placed`); behind it each cursor is compared with the end before it
moves on. So reading in place gives what decoding gives (`Codec.decodeInPlace_eq`,
`Draining.run_eq`), for any event with its fields in any order, and for any bytes.
-/
import EventWire.Proofs.Accounting
import EventWire.Proofs.ExactImage

namespace EventWire

/-! ## Stretches of a buffer -/

/-- The bytes from `start` up to `stop`. -/
def Bytes.between (bs : Bytes) (start stop : Nat) : Except Fault Bytes :=
  if start ≤ stop ∧ stop ≤ bs.length then .ok (bs.slice start (stop - start))
  else .error .outOfBounds

/-- The number in the first four bytes. -/
def Bytes.leadingNumber (bs : Bytes) : Except Fault Nat :=
  (bs.between 0 lengthWidth).map BigEndian.decode

namespace Bytes

variable {bs : Bytes}

theorem between_eq {start width : Nat} (h : start + width ≤ bs.length) :
    bs.between start (start + width) = .ok (bs.slice start width) := by
  rw [between, if_pos ⟨Nat.le_add_right .., h⟩, Nat.add_sub_cancel_left]

theorem between_zero {stop : Nat} (h : stop ≤ bs.length) :
    bs.between 0 stop = .ok (bs.take stop) := by
  rw [between, if_pos ⟨Nat.zero_le _, h⟩]
  rfl

theorem between_length {start : Nat} (h : start ≤ bs.length) :
    bs.between start bs.length = .ok (bs.drop start) := by
  rw [between, if_pos ⟨h, Nat.le_refl _⟩, slice, List.take_of_length_le]
  rw [List.length_drop]

/-- Four bytes that are there are read as a number. -/
theorem number_between {start : Nat} (h : start + lengthWidth ≤ bs.length) :
    bs.between start (start + lengthWidth) >>= leadingNumber =
      .ok (BigEndian.decode (bs.slice start lengthWidth)) := by
  have hlength : (bs.slice start lengthWidth).length = lengthWidth := length_slice h
  rw [between_eq h]
  show leadingNumber (bs.slice start lengthWidth) = _
  rw [leadingNumber, between_zero (Nat.le_of_eq hlength.symm), List.take_of_length_le
    (Nat.le_of_eq hlength)]
  rfl

end Bytes

/-! ## Headers -/

/-- The header at the start of a buffer, if all of it is there. -/
def Header.readInPlace (data : Bytes) : Except Fault (Option Header) :=
  match data.head? with
  | none => .ok none
  | some first =>
    if first = extendedMarker then
      if data.length < HeaderForm.extended.width then .ok none
      else do
        let id ← data.between 1 HeaderForm.extended.width >>= Bytes.leadingNumber
        .ok (some ⟨.ofNat id, .extended⟩)
    else .ok (some ⟨first.toUInt32, .compact⟩)

theorem Header.readInPlace_eq (data : Bytes) : readInPlace data = .ok (read? data) := by
  cases data with
  | nil => rfl
  | cons first rest =>
    rw [readInPlace, read?, List.head?_cons]
    simp only []
    split
    · have hwidth : HeaderForm.extended.width = 1 + lengthWidth := rfl
      have hrest : (first :: rest).length = 1 + rest.length := by
        rw [List.length_cons, Nat.add_comm]
      rw [hwidth, hrest]
      by_cases hshort : rest.length < lengthWidth
      · rw [if_pos (Nat.add_lt_add_left hshort 1),
          if_neg (by rw [Bytes.reaches_iff]; exact Nat.not_le.mpr hshort)]
      · have hfour : lengthWidth ≤ rest.length := Nat.not_lt.mp hshort
        have hreach : Bytes.reaches rest 4 := Bytes.reaches_iff.mpr hfour
        rw [if_neg (by omega), if_pos hreach, Bytes.number_between (by rw [hrest]; omega)]
        rfl
    · rfl

/-! ## Records -/

namespace Codec

section Reading

variable (codec : Codec)

/-- What the start of a buffer tells about the size of the record there. -/
def extentInPlace (data : Bytes) : Except Fault Extent :=
  match codec.layout.fixedSize? with
  | some size => .ok (.known size)
  | none =>
    if data.length < codec.layout.staticOffset then .ok .undetermined
    else do
      let declared ←
        data.between codec.layout.headerWidth codec.layout.staticOffset >>= Bytes.leadingNumber
      match codec.layout.recordLength codec.name declared with
      | .ok size => .ok (.known size)
      | .error error => .ok (.refused error)

/-- A static field from the stretch of its slot. -/
def readScalarInPlace (record : Bytes) (slot : StaticSlot) : Except Fault Value := do
  let stretch ← record.between slot.offset (slot.offset + slot.type.width)
  let bytes ← stretch.between 0 slot.type.width
  .ok (.scalar (.decode slot.type bytes))

/-- Adds the static fields to a record, each from its slot. -/
def readStaticsInPlace (record : Bytes) : List StaticSlot → Record → Except Fault Record
  | [], read => .ok read
  | slot :: slots, read => do
    let value ← readScalarInPlace record slot
    readStaticsInPlace record slots (read.insert slot.name value)

/-- A cursor that has passed the end of the record is a fault as well. -/
def checkCursor (record : Bytes) (cursor : Nat) : Except Fault Unit :=
  if cursor ≤ record.length then .ok () else .error .outOfBounds

/-- Adds the dynamic fields to a record, one after the other from the cursor on. -/
def readDynamicsInPlace (record : Bytes) :
    List DynamicSlot → (cursor : Nat) → Record → Except Fault Record
  | [], cursor, read => do
    checkCursor record cursor
    if cursor = record.length then .ok read
    else
      .error (.refused (.malformed codec.name
        s!"fields end at {cursor} but record length is {record.length}"))
  | slot :: slots, cursor, read => do
    checkCursor record cursor
    if record.length < cursor + lengthWidth then
      .error (.refused (.malformed codec.name
        s!"length prefix of '{slot.name}' runs past record end {record.length}"))
    else
      let length ← record.between cursor (cursor + lengthWidth) >>= Bytes.leadingNumber
      let start := cursor + lengthWidth
      if start + length ≤ record.length then
        let content ← record.between start (start + length)
        let value ← (codec.readBlob slot content).mapError .refused
        readDynamicsInPlace record slots (start + length) (read.insert slot.name value)
      else
        let size := record.length
        .error (.refused (.malformed codec.name
          s!"field '{slot.name}' declares {length} bytes at offset {start}, record ends at {size}"))

/-- The record at the start of a buffer and its size. -/
def decodeInPlace (data : Bytes) : Except Fault (Record × Nat) := do
  match ← codec.extentInPlace data with
  | .undetermined =>
    .error (.refused (.truncated codec.name codec.layout.fixedPortion data.length))
  | .refused error => .error (.refused error)
  | .known size =>
    if data.length < size then .error (.refused (.truncated codec.name size data.length))
    else
      let record ← data.between 0 size
      let read ← readStaticsInPlace record codec.statics .empty
      let read ← codec.readDynamicsInPlace record codec.dynamics codec.layout.dynamicOffset read
      .ok (read, size)

end Reading

variable {codec : Codec}

theorem extentInPlace_eq (codec : Codec) (data : Bytes) :
    codec.extentInPlace data = .ok (codec.extent data) := by
  rw [extentInPlace, extent]
  cases hfixed : codec.layout.fixedSize? with
  | some size => rfl
  | none =>
    have hvaries : ¬ codec.layout.isFixedSize := by
      intro h
      simp [Layout.fixedSize?, h] at hfixed
    have hoffset : codec.layout.staticOffset = codec.layout.headerWidth + lengthWidth := by
      rw [Layout.staticOffset, if_neg hvaries]
    simp only []
    by_cases hshort : data.length < codec.layout.staticOffset
    · rw [if_pos hshort, if_neg (by simpa using hshort)]
    · rw [if_neg hshort, if_pos (by simpa using hshort), hoffset,
        Bytes.number_between (hoffset ▸ Nat.not_lt.mp hshort), declared]
      simp only [bind, Except.bind]
      cases codec.layout.recordLength codec.name
        (BigEndian.decode (data.slice codec.layout.headerWidth lengthWidth)) <;> rfl

theorem readScalarInPlace_eq {record : Bytes} {slot : StaticSlot}
    (h : slot.offset + slot.type.width ≤ record.length) :
    readScalarInPlace record slot = .ok (readScalar record slot) := by
  have hwidth : (record.slice slot.offset slot.type.width).length = slot.type.width :=
    Bytes.length_slice h
  rw [readScalarInPlace, Bytes.between_eq h]
  simp only [bind, Except.bind]
  rw [Bytes.between_zero (Nat.le_of_eq hwidth.symm), List.take_of_length_le (Nat.le_of_eq hwidth)]
  rfl

end Codec

/-- A slot lies within the stretch of all slots. -/
theorem StaticSlot.Tile.mem_bounds {start stop : Nat} {slots : List StaticSlot}
    (h : Tile start slots stop) {slot : StaticSlot} (hslot : slot ∈ slots) :
    start ≤ slot.offset ∧ slot.offset + slot.type.width ≤ stop := by
  induction slots generalizing start with
  | nil => exact (List.not_mem_nil hslot).elim
  | cons first slots ih =>
    obtain ⟨hoffset, htail⟩ := h
    have hstop := htail.start_le_stop
    rcases List.mem_cons.mp hslot with rfl | hslot
    · omega
    · obtain ⟨hstart, hend⟩ := ih htail hslot
      omega

namespace Codec

variable {codec : Codec}

/-- **Static fields** that the record reaches are read from their slots. -/
theorem readStaticsInPlace_eq {record : Bytes} {slots : List StaticSlot}
    (h : ∀ slot ∈ slots, slot.offset + slot.type.width ≤ record.length) (read : Record) :
    readStaticsInPlace record slots read =
      .ok ((slots.map fun slot => (slot.name, readScalar record slot)).foldl
        (fun read pair => read.insert pair.1 pair.2) read) := by
  induction slots generalizing read with
  | nil => rfl
  | cons slot slots ih =>
    rw [readStaticsInPlace, readScalarInPlace_eq (h slot List.mem_cons_self)]
    exact ih (fun other hother => h other (List.mem_cons_of_mem _ hother)) _

theorem checkCursor_eq {record : Bytes} {cursor : Nat} (h : cursor ≤ record.length) :
    checkCursor record cursor = .ok () :=
  if_pos h

/-- **Dynamic fields** are read from a cursor that stays within the record. -/
theorem readDynamicsInPlace_eq (codec : Codec) {record : Bytes} (slots : List DynamicSlot)
    {cursor : Nat} (h : cursor ≤ record.length) (read : Record) :
    codec.readDynamicsInPlace record slots cursor read =
      (codec.readDynamics record.length slots cursor (record.drop cursor) read).mapError
        .refused := by
  induction slots generalizing cursor read with
  | nil =>
    rw [readDynamicsInPlace, checkCursor_eq h, readDynamics]
    simp only [bind, Except.bind, List.isEmpty_iff, List.drop_eq_nil_iff]
    by_cases hend : cursor = record.length
    · rw [if_pos hend, if_pos (Nat.le_of_eq hend.symm)]
      rfl
    · rw [if_neg hend, if_neg (by omega)]
      rfl
  | cons slot slots ih =>
    rw [readDynamicsInPlace, checkCursor_eq h, readDynamics]
    simp only [bind, Except.bind]
    by_cases hprefix : record.length < cursor + lengthWidth
    · rw [if_pos hprefix, if_neg (by rw [Bytes.reaches_iff, List.length_drop]; omega)]
      rfl
    · obtain ⟨length, hlength⟩ :
          ∃ length, BigEndian.decode ((record.drop cursor).take lengthWidth) = length := ⟨_, rfl⟩
      have hnumber := Bytes.number_between (Nat.not_lt.mp hprefix)
      rw [Bytes.slice, hlength] at hnumber
      simp only [bind, Except.bind] at hnumber
      rw [if_neg hprefix, if_pos (by rw [Bytes.reaches_iff, List.length_drop]; omega), hnumber,
        hlength, List.drop_drop, List.drop_drop]
      simp only []
      by_cases hbody : cursor + lengthWidth + length ≤ record.length
      · rw [if_pos hbody, if_pos (by rw [Bytes.reaches_iff, List.length_drop]; omega),
          Bytes.between_eq hbody, Bytes.slice]
        simp only []
        cases codec.readBlob slot ((record.drop (cursor + lengthWidth)).take length) with
        | error error => rfl
        | ok value => exact ih hbody _
      · rw [if_neg hbody, if_neg (by rw [Bytes.reaches_iff, List.length_drop]; omega)]
        rfl

theorem static_bounds (hplaced : codec.Placed) {record : Bytes}
    (h : codec.layout.dynamicOffset ≤ record.length) {slot : StaticSlot}
    (hslot : slot ∈ codec.statics) : slot.offset + slot.type.width ≤ record.length :=
  (hplaced.statics.mem_bounds hslot).2.trans h

/-- **Decoding in place** finds every byte it reads, and gives what decoding gives. -/
theorem decodeInPlace_eq (hplaced : codec.Placed) (data : Bytes) :
    codec.decodeInPlace data = (codec.decode data).mapError .refused := by
  rw [decodeInPlace, extentInPlace_eq]
  simp only [bind, Except.bind]
  cases hextent : codec.extent data with
  | undetermined => rw [decode_of_undetermined hextent]; rfl
  | refused error => rw [decode_of_refused hextent]; rfl
  | known size =>
    simp only []
    by_cases hshort : data.length < size
    · rw [if_pos hshort, decode_of_short hextent hshort]
      rfl
    · have hsize := Nat.not_lt.mp hshort
      have hlength : (data.take size).length = size := List.length_take_of_le hsize
      have hoffset : codec.layout.dynamicOffset ≤ (data.take size).length := by
        rw [hlength]
        exact dynamicOffset_le_of_extent hextent
      rw [if_neg hshort, decode_of_known hextent hsize, Bytes.between_zero hsize]
      simp only []
      rw [readStaticsInPlace_eq fun slot hslot => static_bounds hplaced hoffset hslot]
      simp only []
      rw [codec.readDynamicsInPlace_eq codec.dynamics hoffset]
      show _ = (Except.map _
        (codec.readDynamics _ _ _ _ (codec.readStatics (data.take size)))).mapError _
      rw [readStatics, Record.ofList]
      cases codec.readDynamics (data.take size).length codec.dynamics codec.layout.dynamicOffset
        ((data.take size).drop codec.layout.dynamicOffset)
        ((codec.statics.map fun slot => (slot.name, readScalar (data.take size) slot)).foldl
          (fun read pair => read.insert pair.1 pair.2) .empty) <;> rfl

/-- **What a length has to cover**: any length that a layout accepts is enough for every
static field and for the first length of a dynamic one. -/
theorem slots_within_of_recordLength (event : Event) (typecheck : Bool) {name : String}
    {declared size : Nat}
    (h : (compile event typecheck).layout.recordLength name declared = .ok size) :
    (∀ slot ∈ (compile event typecheck).statics, slot.offset + slot.type.width ≤ size) ∧
      ((compile event typecheck).dynamics ≠ [] →
        (compile event typecheck).layout.dynamicOffset + lengthWidth ≤ size) := by
  have hplaced := placed_compile event typecheck
  have hfixed : (compile event typecheck).layout.fixedPortion ≤ size := by
    unfold Layout.recordLength at h
    split at h
    · exact nomatch h
    · cases h
      rename_i hmin
      rw [Layout.minDeclared] at hmin
      omega
  rw [Layout.fixedPortion] at hfixed
  constructor
  · intro slot hslot
    have hbounds := (hplaced.statics.mem_bounds hslot).2
    omega
  · intro hdynamics
    have hcount : 0 < (compile event typecheck).layout.dynamicCount :=
      hplaced.dynamics ▸ List.length_pos_iff.mpr hdynamics
    have hroom := Nat.mul_le_mul_right lengthWidth hcount
    omega

end Codec

/-! ## Streams -/

/-- What lies at a position of a buffer, which starts at `base` in the stream. -/
def Registry.frameInPlace (registry : Registry) (base : Nat) (buffer : Bytes) (used : Nat) :
    Except Fault (Frame × Registry) := do
  let rest ← buffer.between used buffer.length
  match ← Header.readInPlace rest with
  | none => .ok (.incomplete, registry)
  | some header =>
    match registry.codecOfHeader? header with
    | (none, after) => .ok (.unreadable (.unknownPacket header.id (base + used)), after)
    | (some codec, after) =>
      match ← codec.extentInPlace rest with
      | .undetermined => .ok (.incomplete, after)
      | .refused error => .ok (.unreadable error, after)
      | .known size =>
        if rest.length < size then .ok (.incomplete, after)
        else
          let record ← rest.between 0 size
          match codec.decodeInPlace record with
          | .ok (read, _) => .ok (.whole codec.name size (.ok read), after)
          | .error (.refused error) => .ok (.whole codec.name size (.error error), after)
          | .error .outOfBounds => .error .outOfBounds

/-- How far the draining of a buffer has come. -/
structure Draining (σ : Type) where
  /-- The position up to which the buffer has been used. -/
  used : Nat
  /-- The number of records that were consumed. -/
  consumed : Nat
  registry : Registry
  state : σ

/-- What one round of draining leads to. -/
inductive Draining.Round (σ : Type) where
  | next (draining : Draining σ)
  /-- There is no further round, because of an error or for want of bytes. -/
  | last (draining : Draining σ) (error : Option CodecError)

namespace Draining

variable {σ : Type} (consumer : Consumer σ) (base : Nat) (buffer : Bytes)

/-- One round: the record at the position reached, if there is one. -/
def round (draining : Draining σ) : Except Fault (Round σ) := do
  match ← draining.registry.frameInPlace base buffer draining.used with
  | (.incomplete, registry) => .ok (.last { draining with registry } none)
  | (.unreadable error, registry) => .ok (.last { draining with registry } (some error))
  | (.whole _ size (.error error), registry) =>
    .ok (.next ⟨draining.used + size, draining.consumed, registry,
      consumer.reject error draining.state⟩)
  | (.whole event size (.ok record), registry) =>
    match consumer.consume event record draining.state with
    | (.ok (), state) =>
      .ok (.next ⟨draining.used + size, draining.consumed + 1, registry, state⟩)
    | (.error error, state) =>
      .ok (.last ⟨draining.used + size, draining.consumed, registry, state⟩ (some error))

/-- Rounds up to the last one, which has to come within the given number. -/
def run : (rounds : Nat) → Draining σ → Except Fault (Option (Draining σ × Option CodecError))
  | 0, _ => .ok none
  | rounds + 1, draining => do
    match ← draining.round consumer base buffer with
    | .next draining => run rounds draining
    | .last draining error => .ok (some (draining, error))

end Draining

theorem Codec.nextFrame_eq_decode {codec : Codec} {data : Bytes} {size : Nat}
    (h : codec.extent data = .known size) (hsize : size ≤ data.length) :
    codec.nextFrame data =
      .whole codec.name size ((codec.decode (data.take size)).map (·.1)) := by
  have hlength : (data.take size).length = size := List.length_take_of_le hsize
  rw [nextFrame_of_known h hsize, decode_of_known (extent_take h hsize) (Nat.le_of_eq hlength.symm),
    List.take_take, Nat.min_self]
  cases codec.decodeWhole (data.take size) <;> rfl

theorem Registry.placed_codecOfHeader? {registry after : Registry} {header : Header}
    {codec : Codec} (h : registry.codecOfHeader? header = (some codec, after)) : codec.Placed := by
  have hfound := registry.codecOfHeader?_fst header
  rw [h] at hfound
  obtain ⟨⟨event, found⟩, hresolved, rfl⟩ := Option.map_eq_some_iff.mp hfound.symm
  obtain ⟨rfl, -⟩ := Schema.form_of_resolveHeader hresolved
  exact Codec.placed_compile event _

/-- **At any position of a buffer** there lies what lies at the front of the rest. -/
theorem Registry.frameInPlace_eq (registry : Registry) (base : Nat) {buffer : Bytes} {used : Nat}
    (h : used ≤ buffer.length) :
    registry.frameInPlace base buffer used =
      .ok (registry.nextFrame (base + used) (buffer.drop used)) := by
  rw [frameInPlace, nextFrame, Bytes.between_length h]
  simp only [bind, Except.bind]
  rw [Header.readInPlace_eq]
  simp only []
  cases Header.read? (buffer.drop used) with
  | none => rfl
  | some header =>
    simp only []
    rcases hfound : registry.codecOfHeader? header with ⟨_ | codec, after⟩
    · rfl
    · simp only []
      rw [codec.extentInPlace_eq]
      simp only []
      cases hextent : codec.extent (buffer.drop used) with
      | undetermined => simp only [Codec.nextFrame, hextent]
      | refused error => simp only [Codec.nextFrame, hextent]
      | known size =>
        simp only []
        by_cases hshort : (buffer.drop used).length < size
        · have hreach : ¬ Bytes.reaches (buffer.drop used) size := by
            rw [Bytes.reaches_iff]
            exact Nat.not_le.mpr hshort
          rw [if_pos hshort, Codec.nextFrame, hextent]
          simp only []
          rw [if_neg hreach]
        · have hsize := Nat.not_lt.mp hshort
          rw [if_neg hshort, Bytes.between_zero hsize, Codec.nextFrame_eq_decode hextent hsize]
          simp only []
          rw [Codec.decodeInPlace_eq (placed_codecOfHeader? hfound)]
          cases codec.decode ((buffer.drop used).take size) <;> rfl

namespace Draining

variable {σ : Type} {consumer : Consumer σ} {base : Nat} {buffer : Bytes}

/-- What has been drained, seen from outside the buffer. -/
def drained (base : Nat) (buffer : Bytes) (last : Draining σ) (error : Option CodecError) :
    Drained σ :=
  ⟨last.consumed, error, base + last.used, buffer.drop last.used, last.registry, last.state⟩

/-- A round finds what it looks at, and either is the last one, or has used some of the
bytes that were left. -/
theorem round_eq (consumer : Consumer σ) (base : Nat) {draining : Draining σ}
    (h : draining.used ≤ buffer.length) :
    (∃ last error, draining.round consumer base buffer = .ok (.last last error) ∧
      last.used ≤ buffer.length ∧
      drain consumer draining.registry (base + draining.used) (buffer.drop draining.used)
        draining.consumed draining.state = drained base buffer last error) ∨
    ∃ next, draining.round consumer base buffer = .ok (.next next) ∧
      draining.used < next.used ∧ next.used ≤ buffer.length ∧
      drain consumer draining.registry (base + draining.used) (buffer.drop draining.used)
          draining.consumed draining.state =
        drain consumer next.registry (base + next.used) (buffer.drop next.used) next.consumed
          next.state := by
  rw [round, draining.registry.frameInPlace_eq base h]
  simp only [bind, Except.bind]
  rcases hframe : draining.registry.nextFrame (base + draining.used) (buffer.drop draining.used)
    with ⟨_ | error | ⟨event, size, _ | record⟩, after⟩
  · exact .inl ⟨_, _, rfl, h, drain_incomplete hframe⟩
  · exact .inl ⟨_, _, rfl, h, drain_unreadable hframe⟩
  · obtain ⟨hpos, hsize⟩ := Registry.nextFrame_whole hframe
    rw [List.length_drop] at hsize
    refine .inr ⟨_, rfl, by dsimp only; omega, by dsimp only; omega, ?_⟩
    rw [drain_rejected hframe, List.drop_drop, Nat.add_assoc]
  · obtain ⟨hpos, hsize⟩ := Registry.nextFrame_whole hframe
    rw [List.length_drop] at hsize
    simp only []
    rcases hconsume : consumer.consume event record draining.state with ⟨error | _, state⟩
    · refine .inl ⟨_, _, rfl, by dsimp only; omega, ?_⟩
      rw [drain_refused hframe hconsume, drained, List.drop_drop, Nat.add_assoc]
    · refine .inr ⟨_, rfl, by dsimp only; omega, by dsimp only; omega, ?_⟩
      rw [drain_consumed hframe hconsume, List.drop_drop, Nat.add_assoc]

/-- **Draining in place** finds every byte it looks at, ends within as many rounds as
there are bytes left and one more, and drains what draining the rest does. -/
theorem run_eq {rounds : Nat} {draining : Draining σ} (h : draining.used ≤ buffer.length)
    (hrounds : buffer.length - draining.used < rounds) :
    ∃ last error, draining.run consumer base buffer rounds = .ok (some (last, error)) ∧
      last.used ≤ buffer.length ∧
      drain consumer draining.registry (base + draining.used) (buffer.drop draining.used)
        draining.consumed draining.state = drained base buffer last error := by
  induction rounds generalizing draining with
  | zero => omega
  | succ rounds ih =>
    rw [run]
    rcases round_eq consumer base h with
      ⟨last, error, hround, hlast, hdrain⟩ | ⟨next, hround, hmore, hnext, hdrain⟩
    · rw [hround]
      exact ⟨last, error, rfl, hlast, hdrain⟩
    · obtain ⟨last, error, hrun, hlast, hrest⟩ := ih hnext (by omega)
      rw [hround]
      exact ⟨last, error, hrun, hlast, hdrain.trans hrest⟩

end Draining

/-- **No bytes make a decoder read past the end.** Reading in place, where a stretch
past the end of its buffer ends everything, gives what reading gives: the header of any
bytes; the record at the start of any bytes, for the codec of any event, whatever the
order of its fields and however often they come; and the records of any buffer, for any
registry and any consumer. The cursor never passes the end of a record, nor what is used
the end of the buffer. Every length that a layout accepts covers the static fields and the
first length of a dynamic one. -/
theorem Codec.reads_within_bounds :
    (∀ data, Header.readInPlace data = .ok (Header.read? data)) ∧
      (∀ (event : Event) (typecheck : Bool) (data : Bytes),
        (compile event typecheck).decodeInPlace data =
          ((compile event typecheck).decode data).mapError .refused) ∧
      (∀ (event : Event) (typecheck : Bool) (name : String) (declared size : Nat),
        (compile event typecheck).layout.recordLength name declared = .ok size →
          (∀ slot ∈ (compile event typecheck).statics,
            slot.offset + slot.type.width ≤ size) ∧
          ((compile event typecheck).dynamics ≠ [] →
            (compile event typecheck).layout.dynamicOffset + lengthWidth ≤ size)) ∧
      ∀ (σ : Type) (consumer : Consumer σ) (registry : Registry) (base : Nat) (buffer : Bytes)
        (state : σ), ∃ last error,
          Draining.run consumer base buffer (buffer.length + 1) ⟨0, 0, registry, state⟩ =
            .ok (some (last, error)) ∧
          last.used ≤ buffer.length ∧
          drain consumer registry base buffer 0 state =
            ⟨last.consumed, error, base + last.used, buffer.drop last.used, last.registry,
              last.state⟩ := by
  refine ⟨Header.readInPlace_eq, ?_, ?_, ?_⟩
  · intro event typecheck data
    exact decodeInPlace_eq (placed_compile event typecheck) data
  · intro event typecheck name declared size h
    exact slots_within_of_recordLength event typecheck h
  · intro σ consumer registry base buffer state
    have hstart : (⟨0, 0, registry, state⟩ : Draining σ).used ≤ buffer.length := Nat.zero_le _
    exact Draining.run_eq hstart (Nat.lt_succ_self _)

/-- An event as no definition gives it: its fields are out of order, and each comes twice. -/
def scrambledEvent : Event :=
  ⟨1, "spot", [⟨"text", .blob .string⟩, ⟨"x", .scalar .int16⟩, ⟨"text", .blob .bytes⟩,
    ⟨"x", .scalar .byte⟩]⟩

/-- The least length that it accepts, and a record of that length whose first dynamic
field claims all that a length can. -/
theorem Codec.reads_within_bounds_scrambled :
    (compile scrambledEvent true).layout.recordLength "spot" 15 = .ok 16 ∧
      (∀ slot ∈ (compile scrambledEvent true).statics, slot.offset + slot.type.width ≤ 16) ∧
      (compile scrambledEvent true).layout.dynamicOffset + lengthWidth ≤ 16 ∧
      (compile scrambledEvent true).decodeInPlace
          [1, 0, 0, 0, 15, 0, 1, 2, 255, 255, 255, 255, 0, 0, 0, 0] =
        .error (.refused (.malformed "spot"
          "field 'text' declares 4294967295 bytes at offset 12, record ends at 16")) := by
  have haccepted : (compile scrambledEvent true).layout.recordLength "spot" 15 = .ok 16 := by
    decide
  obtain ⟨-, hdecode, hbounds, -⟩ := reads_within_bounds
  obtain ⟨hstatics, hdynamic⟩ := hbounds scrambledEvent true "spot" 15 16 haccepted
  refine ⟨haccepted, hstatics, hdynamic (by decide), ?_⟩
  rw [hdecode]
  cbv

end EventWire
