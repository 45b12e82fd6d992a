/-
EventWire.Proofs.SlotTable — the slots of a codec fill the place that its layout keeps
for them.

A layout comes to a few sums over the fields of an event, worked out once and kept
(`Layout.Sums`). The slots of a codec come of another pass over the same fields: an offset
moves on by the width of each static field that it meets, whatever lies between them, and
the dynamic fields are put aside (`SlotTable.add`). Neither pass looks at what the other
has found, and each has widths of its own, here those of the types and there those of the
functions that write and read them (`Accessors.ofType?`). Encoders, decoders and framers
take it for granted that the two fit together.

They do, for any event, with its fields in any order and however often they come. The
table is that of the codec (`SlotTable.ofEvent_eq`) and the sums are those of its layout
(`Layout.Sums.ofEvent_eq`). So each byte that the layout keeps for static fields belongs
to one slot (`StaticSlot.Tile.existsUnique_mem`), and the walk ends where the dynamic
fields start.
-/
import EventWire.Proofs.DecodeInPlace

namespace EventWire

/-! ## The sums of a layout -/

/-- What a layout comes to, as it is kept once it has been worked out. -/
structure Layout.Sums where
  headerWidth : Nat
  staticWidth : Nat
  dynamicCount : Nat
  isFixedSize : Bool
  /-- The size of the header, the length of the record if it has one, the static fields
  and a length for each dynamic field. -/
  fixedPortion : Nat
deriving DecidableEq

namespace Layout.Sums

/-- The sums over the fields of an event. -/
def ofEvent (event : Event) : Sums :=
  let headerWidth :=
    if event.isExtended then HeaderForm.extended.width else HeaderForm.compact.width
  let staticWidth := (event.staticFields.filterMap (·.type.width?)).sum
  let dynamicCount := event.dynamicFields.length
  let isFixedSize : Bool := dynamicCount = 0
  let declaredWidth := if isFixedSize then 0 else lengthWidth
  { headerWidth, staticWidth, dynamicCount, isFixedSize
    fixedPortion := headerWidth + declaredWidth + staticWidth + dynamicCount * lengthWidth }

variable (sums : Sums)

def fixedSize? : Option Nat :=
  if sums.isFixedSize then some (sums.headerWidth + sums.staticWidth) else none

/-- Where the static fields start. -/
def staticOffset : Nat :=
  if sums.isFixedSize then sums.headerWidth else sums.headerWidth + lengthWidth

/-- Where the dynamic fields start. -/
def dynamicOffset : Nat := sums.staticOffset + sums.staticWidth

/-- The least length that a record may declare. -/
def minDeclared : Nat := sums.fixedPortion - sums.headerWidth

end Layout.Sums

/-- What a layout comes to. -/
def Layout.sums (layout : Layout) : Layout.Sums where
  headerWidth := layout.headerWidth
  staticWidth := layout.staticWidth
  dynamicCount := layout.dynamicCount
  isFixedSize := layout.isFixedSize
  fixedPortion := layout.fixedPortion

namespace Layout

@[simp] theorem staticOffset_sums (layout : Layout) :
    layout.sums.staticOffset = layout.staticOffset := rfl

@[simp] theorem dynamicOffset_sums (layout : Layout) :
    layout.sums.dynamicOffset = layout.dynamicOffset := rfl

@[simp] theorem minDeclared_sums (layout : Layout) :
    layout.sums.minDeclared = layout.minDeclared := rfl

@[simp] theorem fixedSize?_sums (layout : Layout) :
    layout.sums.fixedSize? = layout.fixedSize? := rfl

theorem headerWidth_eq (event : Event) : (ofEvent event).headerWidth =
    if event.isExtended then HeaderForm.extended.width else HeaderForm.compact.width := by
  show (HeaderForm.ofId event.id).width = _
  unfold HeaderForm.ofId Event.isExtended
  by_cases h : maxCompactId < event.id <;> simp [h]

/-- **The sums over the fields** are what the event's layout comes to. -/
theorem Sums.ofEvent_eq (event : Event) : Sums.ofEvent event = (Layout.ofEvent event).sums := by
  have hwidth : (event.staticFields.filterMap (·.type.width?)).sum =
      (Layout.ofEvent event).staticWidth := (event.staticWidth_ofEvent).symm
  have hcount : event.dynamicFields.length = (Layout.ofEvent event).dynamicCount := rfl
  rw [Sums.ofEvent, ← headerWidth_eq, hwidth, hcount]
  unfold sums Layout.fixedPortion Layout.dynamicOffset Layout.staticOffset Layout.isFixedSize
  cases decide ((Layout.ofEvent event).dynamicCount = 0) <;> rfl

end Layout

/-! ## Accessors -/

/-- How the values of a type get into a record and out of it. -/
structure Accessors where
  /-- The number of bytes that a value takes. -/
  width : Nat
  /-- The bytes of a value, or its type if it has none. Where types are checked, only
  values of the very type have. -/
  write : (typecheck : Bool) → Value → Except FieldType Bytes
  /-- The value that so many bytes hold. -/
  read : Bytes → Value

namespace Accessors

/-- Writes a value as a scalar of the given type. -/
def writeScalar (type : ScalarType) (typecheck : Bool) : Value → Except FieldType Bytes
  | .scalar v =>
    if v.type = type then .ok v.encode
    else if typecheck then .error (.scalar v.type)
    else .ok (v.convert type).encode
  | value => .error value.type

theorem writeScalar_scalar (type : ScalarType) (typecheck : Bool) (v : Scalar) :
    writeScalar type typecheck (.scalar v) =
      if v.type = type then .ok v.encode
      else if typecheck then .error (.scalar v.type)
      else .ok (v.convert type).encode := rfl

def ofScalar (type : ScalarType) (width : Nat) : Accessors where
  width
  write := writeScalar type
  read bytes := .scalar (.decode type bytes)

/-- The accessors of a type, unless its values carry their length. -/
def ofType? : FieldType → Option Accessors
  | .scalar .byte => some (ofScalar .byte 1)
  | .scalar .int16 => some (ofScalar .int16 2)
  | .scalar .int32 => some (ofScalar .int32 4)
  | .scalar .float32 => some (ofScalar .float32 4)
  | .scalar .float64 => some (ofScalar .float64 8)
  | .blob _ => none

/-- The width of the accessors is that of the type. -/
theorem ofType?_scalar (type : ScalarType) :
    ofType? (.scalar type) = some (ofScalar type type.width) := by
  cases type <;> rfl

/-- **As many bytes are written** as the accessors are wide. -/
theorem length_of_write {type : FieldType} {accessors : Accessors}
    (h : ofType? type = some accessors) {typecheck : Bool} {value : Value} {bytes : Bytes}
    (hwrite : accessors.write typecheck value = .ok bytes) : bytes.length = accessors.width := by
  cases type with
  | blob type => exact nomatch h
  | scalar type =>
    rw [ofType?_scalar] at h
    cases h
    cases value with
    | string s => exact nomatch hwrite
    | bytes bs => exact nomatch hwrite
    | scalar v =>
      change writeScalar type typecheck (.scalar v) = .ok bytes at hwrite
      rw [writeScalar_scalar] at hwrite
      split at hwrite
      · rename_i hsame
        cases hwrite
        rw [Scalar.length_encode, hsame]
        rfl
      · split at hwrite
        · exact nomatch hwrite
        · cases hwrite
          rw [Scalar.length_encode, Scalar.type_convert]
          rfl

end Accessors

/-! ## Tables -/

/-- A static field, where it lies in the record, and its accessors. -/
structure TableSlot extends Accessors where
  name : String
  type : FieldType
  offset : Nat

/-- The field that a slot belongs to. -/
def TableSlot.field (slot : TableSlot) : Field := ⟨slot.name, slot.type⟩

/-- The slots of the fields that have been met. -/
structure SlotTable where
  statics : List TableSlot
  dynamics : List Field
  /-- Where the next static field will lie. -/
  offset : Nat

/-- One more field. A static one is placed behind those before it. -/
def SlotTable.add (table : SlotTable) (field : Field) : SlotTable :=
  match Accessors.ofType? field.type with
  | some accessors =>
    { table with
      statics := table.statics ++
        [{ accessors with name := field.name, type := field.type, offset := table.offset }]
      offset := table.offset + accessors.width }
  | none => { table with dynamics := table.dynamics ++ [field] }

/-- The slots of all fields of an event, one after the other. -/
def SlotTable.ofEvent (event : Event) : SlotTable :=
  event.fields.foldl add ⟨[], [], (Layout.Sums.ofEvent event).staticOffset⟩

/-- What a table says of a slot. -/
def StaticSlot.entry (slot : StaticSlot) : TableSlot :=
  { Accessors.ofScalar slot.type slot.type.width with
    name := slot.name, type := .scalar slot.type, offset := slot.offset }

namespace SlotTable

theorem add_scalar (table : SlotTable) (name : String) (type : ScalarType) :
    table.add ⟨name, .scalar type⟩ =
      { table with
        statics := table.statics ++ [StaticSlot.entry ⟨name, type, table.offset⟩]
        offset := table.offset + type.width } := by
  unfold add
  rw [Accessors.ofType?_scalar]
  rfl

theorem add_blob (table : SlotTable) (name : String) (type : BlobType) :
    table.add ⟨name, .blob type⟩ =
      { table with dynamics := table.dynamics ++ [⟨name, .blob type⟩] } := rfl

/-- **A walk over some fields** adds their slots to a table, placed from where it had
come to. -/
theorem foldl_add (fields : List Field) (table : SlotTable) :
    fields.foldl add table =
      { statics := table.statics ++
          (Codec.placeStatics table.offset fields).map StaticSlot.entry
        dynamics := table.dynamics ++ (Codec.dynamicSlots fields).map DynamicSlot.field
        offset := table.offset + (fields.map (·.type.width?.getD 0)).foldr (· + ·) 0 } := by
  induction fields generalizing table with
  | nil => simp [Codec.placeStatics, Codec.dynamicSlots]
  | cons field fields ih =>
    obtain ⟨name, type⟩ := field
    cases type with
    | scalar type =>
      rw [List.foldl_cons, add_scalar, ih]
      simp [Codec.placeStatics, Codec.dynamicSlots, FieldType.width?, Nat.add_assoc]
    | blob type =>
      rw [List.foldl_cons, add_blob, ih]
      simp [Codec.placeStatics, Codec.dynamicSlots, FieldType.width?, DynamicSlot.field]

/-- **The table of an event** has the slots of its codec, and the walk ends where the
layout has the dynamic fields start. -/
theorem ofEvent_eq (event : Event) (typecheck : Bool) :
    ofEvent event =
      { statics := (Codec.compile event typecheck).statics.map StaticSlot.entry
        dynamics := (Codec.compile event typecheck).dynamics.map DynamicSlot.field
        offset := (Codec.compile event typecheck).layout.dynamicOffset } := by
  rw [ofEvent, foldl_add, Layout.Sums.ofEvent_eq, Layout.staticOffset_sums]
  rfl

end SlotTable

namespace Codec

variable (codec : Codec) (slot : StaticSlot)

/-- What a codec writes for a static field is what the accessors of its slot write. -/
theorem scalarOf_eq_write (record : Record) :
    (codec.scalarOf record slot).map Scalar.encode =
      codec.valueOf record slot.name slot.entry.type >>= fun value =>
        (slot.entry.write codec.typecheck value).mapError
          (codec.mismatch slot.name slot.entry.type) := by
  show _ = codec.valueOf record slot.name (.scalar slot.type) >>= _
  rw [scalarOf]
  cases codec.valueOf record slot.name (.scalar slot.type) with
  | error error => rfl
  | ok value =>
    cases value with
    | string s => rfl
    | bytes bs => rfl
    | scalar v =>
      show Except.map _ (if _ then _ else _) =
        (Accessors.writeScalar slot.type codec.typecheck (.scalar v)).mapError _
      rw [Accessors.writeScalar_scalar]
      by_cases hsame : v.type = slot.type
      · rw [if_neg (by simp [hsame]), if_pos hsame, ← hsame, Scalar.convert_self]
        rfl
      · rw [if_neg hsame]
        cases codec.typecheck with
        | true =>
          rw [if_pos ⟨rfl, hsame⟩]
          rfl
        | false =>
          rw [if_neg (by simp)]
          rfl

/-- What it reads for the field is what they read. -/
theorem readScalar_eq_read (record : Bytes) :
    readScalar record slot = slot.entry.read (record.slice slot.entry.offset slot.entry.width) :=
  rfl

end Codec

/-! ## Slots in a row -/

namespace StaticSlot.Tile

variable {start stop : Nat} {slots : List StaticSlot} {slot : StaticSlot}

theorem offset_of_head? (h : Tile start slots stop) (hslot : slot ∈ slots.head?) :
    slot.offset = start := by
  cases slots with
  | nil => exact nomatch hslot
  | cons first slots =>
    obtain rfl : first = slot := by simpa using hslot
    exact h.1

theorem stop_of_getLast? (h : Tile start slots stop) (hslot : slot ∈ slots.getLast?) :
    slot.offset + slot.type.width = stop := by
  induction slots generalizing start with
  | nil => exact nomatch hslot
  | cons first slots ih =>
    obtain ⟨hoffset, htail⟩ := h
    cases slots with
    | nil =>
      obtain rfl : first = slot := by simpa using hslot
      rw [hoffset]
      exact htail
    | cons second slots => exact ih htail (by simpa using hslot)

theorem isChain (h : Tile start slots stop) :
    slots.IsChain fun slot next => next.offset = slot.offset + slot.type.width := by
  induction slots generalizing start with
  | nil => exact .nil
  | cons first slots ih =>
    obtain ⟨hoffset, htail⟩ := h
    refine List.isChain_cons.mpr ⟨fun second hsecond => ?_, ih htail⟩
    rw [htail.offset_of_head? hsecond, hoffset]

/-- **Each byte belongs to one slot**, and to no other. -/
theorem existsUnique_mem (h : Tile start slots stop) {place : Nat} (hstart : start ≤ place)
    (hstop : place < stop) :
    ∃! slot, slot ∈ slots ∧ slot.offset ≤ place ∧ place < slot.offset + slot.type.width := by
  induction slots generalizing start with
  | nil =>
    obtain rfl : start = stop := h
    omega
  | cons first slots ih =>
    obtain ⟨hoffset, htail⟩ := h
    by_cases hfirst : place < start + first.type.width
    · refine ⟨first, ⟨List.mem_cons_self, by omega, by omega⟩, ?_⟩
      rintro other ⟨hother, hlow, -⟩
      rcases List.mem_cons.mp hother with rfl | hother
      · rfl
      · have := (htail.mem_bounds hother).1
        omega
    · obtain ⟨slot, ⟨hslot, hbounds⟩, hunique⟩ := ih htail (by omega)
      refine ⟨slot, ⟨List.mem_cons_of_mem _ hslot, hbounds⟩, ?_⟩
      rintro other ⟨hother, hlow, hhigh⟩
      rcases List.mem_cons.mp hother with rfl | hother
      · omega
      · exact hunique other ⟨hother, hlow, hhigh⟩

end StaticSlot.Tile

namespace TableSlot

/-- Some slots fill the bytes from `start` up to `stop`. -/
structure Tiles (start : Nat) (slots : List TableSlot) (stop : Nat) : Prop where
  first : ∀ slot ∈ slots.head?, slot.offset = start
  /-- Each slot but the first lies where the one before it ends. -/
  next : slots.IsChain fun slot next => next.offset = slot.offset + slot.width
  last : ∀ slot ∈ slots.getLast?, slot.offset + slot.width = stop
  /-- Without slots there is nothing to fill. -/
  empty : slots = [] → start = stop
  /-- Each byte belongs to one slot. -/
  bytes : ∀ place, start ≤ place → place < stop →
    ∃! slot, slot ∈ slots ∧ slot.offset ≤ place ∧ place < slot.offset + slot.width

theorem tiles_entries {start stop : Nat} {slots : List StaticSlot}
    (h : StaticSlot.Tile start slots stop) : Tiles start (slots.map StaticSlot.entry) stop where
  first := by
    simp only [List.head?_map, Option.mem_map]
    rintro _ ⟨slot, hslot, rfl⟩
    exact h.offset_of_head? hslot
  next := by
    rw [List.isChain_map]
    exact h.isChain
  last := by
    simp only [List.getLast?_map, Option.mem_map]
    rintro _ ⟨slot, hslot, rfl⟩
    exact h.stop_of_getLast? hslot
  empty := by
    intro hnone
    rw [List.map_eq_nil_iff] at hnone
    rw [hnone] at h
    exact h
  bytes := by
    intro place hstart hstop
    obtain ⟨slot, ⟨hslot, hplace⟩, hunique⟩ := h.existsUnique_mem hstart hstop
    refine ⟨slot.entry, ⟨List.mem_map_of_mem hslot, hplace⟩, ?_⟩
    rintro _ ⟨hentry, hother⟩
    obtain ⟨other, hmem, rfl⟩ := List.mem_map.mp hentry
    rw [hunique other ⟨hmem, hother⟩]

end TableSlot

/-! ## Tables and layouts -/

namespace Layout

theorem fixedPortion_eq (layout : Layout) :
    layout.fixedPortion = layout.dynamicOffset + 4 * layout.dynamicCount := by
  rw [fixedPortion, Nat.mul_comm]
  rfl

/-- Behind the header, the fixed portion is what a record has to declare at least. -/
theorem headerWidth_add_minDeclared (layout : Layout) :
    layout.headerWidth + layout.minDeclared = layout.fixedPortion := by
  have hheader := Codec.headerWidth_le_staticOffset layout
  unfold minDeclared fixedPortion dynamicOffset
  omega

/-- Where there are no dynamic fields, the fixed portion is all there is. -/
theorem fixedSize?_eq (layout : Layout) :
    layout.fixedSize? = if layout.dynamicCount = 0 then some layout.fixedPortion else none := by
  by_cases hcount : layout.dynamicCount = 0 <;>
    simp [fixedSize?, isFixedSize, fixedPortion, dynamicOffset, staticOffset, hcount]

end Layout

/-- The slots of a table are those that an event needs, and lie where a layout, by what
it comes to, has a place for them. -/
structure SlotTable.Fills (table : SlotTable) (sums : Layout.Sums) (event : Event) : Prop where
  /-- The static fields have slots in the event's order. -/
  statics : table.statics.map TableSlot.field = event.staticFields
  tiles : TableSlot.Tiles sums.staticOffset table.statics sums.dynamicOffset
  /-- A slot is as wide as its type, and as whatever its accessors write. -/
  widths : ∀ slot ∈ table.statics, slot.type.width? = some slot.width ∧
    ∀ typecheck value bytes, slot.write typecheck value = .ok bytes → bytes.length = slot.width
  /-- One more static field would lie where the dynamic fields start. -/
  offset : table.offset = sums.dynamicOffset
  /-- The dynamic fields have slots in the event's order. -/
  dynamics : table.dynamics = event.dynamicFields
  count : table.dynamics.length = sums.dynamicCount
  /-- The fixed portion goes up to the dynamic fields and takes in their lengths. -/
  fixedPortion : sums.fixedPortion = sums.dynamicOffset + 4 * sums.dynamicCount
  /-- It is what a record has to declare at least, and the header. -/
  minDeclared : sums.fixedPortion = sums.headerWidth + sums.minDeclared
  /-- It is the size of all records, where they have one. -/
  fixedSize : sums.fixedSize? = if sums.dynamicCount = 0 then some sums.fixedPortion else none

/-- **Slots fill the place that a layout keeps for them**, for any event, with its fields
in any order and however often they come. The table that one walk over the fields makes
fits the sums that other passes over them come to (`SlotTable.Fills`), and table and sums
are those of the event's codec, whether it checks types or not. -/
theorem Codec.slots_fill_layout (event : Event) (typecheck : Bool) :
    (SlotTable.ofEvent event).Fills (.ofEvent event) event ∧
      (SlotTable.ofEvent event).statics =
        (compile event typecheck).statics.map StaticSlot.entry ∧
      (SlotTable.ofEvent event).dynamics =
        (compile event typecheck).dynamics.map DynamicSlot.field ∧
      Layout.Sums.ofEvent event = (compile event typecheck).layout.sums := by
  have hplaced := placed_compile event typecheck
  rw [SlotTable.ofEvent_eq event typecheck, Layout.Sums.ofEvent_eq,
    ← layout_compile event typecheck]
  refine ⟨?_, rfl, rfl, rfl⟩
  exact {
    statics := by
      rw [List.map_map]
      exact map_field_statics event typecheck
    tiles := by
      rw [Layout.staticOffset_sums, Layout.dynamicOffset_sums]
      exact TableSlot.tiles_entries hplaced.statics
    widths := by
      intro _ hentry
      obtain ⟨slot, -, rfl⟩ := List.mem_map.mp hentry
      refine ⟨rfl, fun typecheck value bytes hwrite => ?_⟩
      exact Accessors.length_of_write (Accessors.ofType?_scalar slot.type) hwrite
    offset := (Layout.dynamicOffset_sums _).symm
    dynamics := map_field_dynamics event typecheck
    count := by
      rw [List.length_map]
      exact hplaced.dynamics
    fixedPortion := by
      rw [Layout.dynamicOffset_sums]
      exact Layout.fixedPortion_eq _
    minDeclared := by
      rw [Layout.minDeclared_sums]
      exact (Layout.headerWidth_add_minDeclared _).symm
    fixedSize := by
      rw [Layout.fixedSize?_sums]
      exact Layout.fixedSize?_eq _ }

/-- The slots of the static field that comes twice lie in a row, though a dynamic field
stands between them. -/
theorem Codec.slots_fill_layout_scrambled :
    (SlotTable.ofEvent scrambledEvent).statics.map
        (fun slot => (slot.field, slot.offset, slot.width)) =
          [(⟨"x", .scalar .int16⟩, 5, 2), (⟨"x", .scalar .byte⟩, 7, 1)] ∧
      (Layout.Sums.ofEvent scrambledEvent).dynamicOffset = 8 ∧
      (Layout.Sums.ofEvent scrambledEvent).fixedPortion = 16 ∧
      (SlotTable.ofEvent scrambledEvent).Fills (.ofEvent scrambledEvent) scrambledEvent := by
  refine ⟨by decide, by decide, by decide, ?_⟩
  exact (slots_fill_layout scrambledEvent true).1

end EventWire
