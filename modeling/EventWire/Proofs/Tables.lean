/-
EventWire.Proofs.Tables — a registry that is kept in tables.

A registry need not search its events. It can keep them in rows and have tables that
tell the row of an id or of a name, of compact ids by their place and of the others by
hashing, beside a count of the compact ones, a mark that it is frozen, and cells for
what has been worked out (`Tables`). All of this is written in place, one table after
the other (`Tables.enter`). So it is no longer plain that the tables fit together after
a definition, nor that a refused one has written nothing.

`Tables.Holds` says what it is for tables to hold a registry. Looking up an event gives
what it gives in the registry. A definition is accepted or refused as in the registry,
with the same error; if it is refused, the tables are what they were, and if it is
accepted, they hold the registry that the definition gives (`Tables.Holds.define`).
-/
import EventWire.Proofs.Catalogue
import Mathlib

namespace EventWire

/-- An event, and its codec once that has been compiled. -/
structure Tables.Row where
  event : Event
  codec : Option Codec

/-- What a registry is kept in. -/
structure Tables where
  settings : RegistrySettings
  /-- The events, in the order of their definition. -/
  rows : Array Tables.Row
  /-- The rows of compact ids. -/
  compact : Vector (Option Nat) compactIdCount
  /-- The rows of the other ids. -/
  extended : Std.HashMap UInt32 Nat
  byName : Std.HashMap String Nat
  compactCount : Nat
  frozen : Bool
  /-- The fingerprint, once it has been asked for. -/
  fingerprintCell : Option Fingerprint

namespace Tables

/-- Tables without events. -/
def ofSettings (settings : RegistrySettings) : Tables where
  settings
  rows := #[]
  compact := .replicate compactIdCount none
  extended := ∅
  byName := ∅
  compactCount := 0
  frozen := false
  fingerprintCell := none

/-! ## Looking up events -/

theorem toNat_lt_compactIdCount {id : UInt32} (h : id ≤ maxCompactId) :
    id.toNat < compactIdCount :=
  Nat.lt_succ_of_le (UInt32.le_iff_toNat_le.mp h)

def rowOfId? (tables : Tables) (id : UInt32) : Option Nat :=
  if h : id ≤ maxCompactId then
    have hplace := toNat_lt_compactIdCount h
    tables.compact[id.toNat]
  else tables.extended[id]?

def rowOfName? (tables : Tables) (name : String) : Option Nat := tables.byName[name]?

def eventAt? (tables : Tables) (row : Nat) : Option Event := tables.rows[row]?.map (·.event)

def eventOfId? (tables : Tables) (id : UInt32) : Option Event :=
  (tables.rowOfId? id).bind tables.eventAt?

def eventOfName? (tables : Tables) (name : String) : Option Event :=
  (tables.rowOfName? name).bind tables.eventAt?

/-! ## Adding events -/

/-- Writes an event to all tables. -/
def enter (event : Event) : StateM Tables Unit := do
  let row := (← get).rows.size
  if h : event.id ≤ maxCompactId then
    modify fun tables => { tables with
      compact := tables.compact.set event.id.toNat (some row) (toNat_lt_compactIdCount h) }
    modify fun tables => { tables with compactCount := tables.compactCount + 1 }
  else
    modify fun tables => { tables with extended := tables.extended.insert event.id row }
  modify fun tables => { tables with byName := tables.byName.insert event.name row }
  modify fun tables => { tables with rows := tables.rows.push ⟨event, none⟩ }
  modify fun tables => { tables with fingerprintCell := none }

/-- Adds an event. What has been written when an error is thrown would stay written. -/
def define (id : UInt32) (name : String) (fields : List Field) :
    ExceptT SchemaError (StateM Tables) Unit := do
  if (← get).frozen then throw (.frozen name)
  let event ← liftExcept (Event.define id name fields)
  if let some existing := (← get).eventOfId? id then
    throw (.duplicateId id existing.name)
  if let some existing := (← get).eventOfName? event.name then
    throw (.duplicateName event.name existing.id)
  let limit := (← get).settings.maxCompactEvents
  if id ≤ maxCompactId ∧ limit ≤ (← get).compactCount then throw (.tooManyEvents limit)
  enter event

end Tables

/-! ## Tables that hold a registry -/

/-- What a cell holds, if it is full. -/
def Memo.stored? {α : Type} {value : α} (cell : Memo value) : Option α :=
  Option.map Subtype.val cell

namespace Registry

variable {registry : Registry} {event : Event}

/-- The place of the first wanted event. -/
def placeOf? (registry : Registry) (wanted : Event → Bool) : Option Nat :=
  registry.defined.findIdx? wanted

theorem find?_eq_bind_placeOf? (registry : Registry) (wanted : Event → Bool) :
    registry.defined.find? wanted = (registry.placeOf? wanted).bind (registry.defined[·]?) :=
  List.find?_eq_bind_findIdx?_getElem?

theorem placeOf?_eq_none_iff {wanted : Event → Bool} :
    registry.placeOf? wanted = none ↔ registry.defined.find? wanted = none := by
  rw [placeOf?, List.findIdx?_eq_none_iff, List.find?_eq_none]
  simp

/-- With an event of a new key, the place of that key is the last one. -/
theorem placeOf?_add {β : Type} [DecidableEq β] {key : Event → β}
    (hnew : registry.defined.find? (fun other => decide (key other = key event)) = none) (k : β) :
    (registry.add event).placeOf? (fun other => decide (key other = k)) =
      if key event = k then some registry.size
      else registry.placeOf? (fun other => decide (key other = k)) := by
  have hnone := placeOf?_eq_none_iff.mpr hnew
  have hsize : registry.defined.length = registry.size := List.length_map ..
  unfold placeOf? at hnone ⊢
  rw [defined_add, List.findIdx?_append, List.findIdx?_singleton]
  by_cases hkey : key event = k
  · subst hkey
    simp [hnone, hsize]
  · simp [hkey]

@[simp] theorem isFrozen_add (registry : Registry) (event : Event) :
    (registry.add event).isFrozen = registry.isFrozen := by
  simp [isFrozen, add]

theorem compactCount_add (registry : Registry) (event : Event) :
    (registry.add event).compactCount =
      registry.compactCount + (if event.isExtended then 0 else 1) := by
  rw [compactCount, defined_add, List.countP_append, List.countP_singleton]
  cases event.isExtended <;> rfl

end Registry

namespace Tables

def Row.of {typecheck : Bool} (entry : Registry.Entry typecheck) : Row :=
  ⟨entry.event, entry.codec.stored?⟩

/-- The tables hold the registry: they have its events in rows, tell the row of each id
and each name, and have nothing else in their cells than the registry remembers. -/
structure Holds (tables : Tables) (registry : Registry) : Prop where
  settings : tables.settings = registry.settings
  rows : tables.rows.toList = registry.entries.map Row.of
  rowOfId : ∀ id, tables.rowOfId? id = registry.placeOf? (·.id = id)
  rowOfName : ∀ name, tables.rowOfName? name = registry.placeOf? (·.name = name)
  compactCount : tables.compactCount = registry.compactCount
  frozen : tables.frozen = registry.isFrozen
  fingerprintCell : tables.fingerprintCell = registry.fingerprintMemo.stored?

variable {tables : Tables} {registry : Registry}

theorem holds_ofSettings (settings : RegistrySettings) :
    (ofSettings settings).Holds (.ofSettings settings) where
  settings := rfl
  rows := rfl
  rowOfId id := by
    unfold rowOfId?
    split
    · exact Vector.getElem_replicate _
    · exact Std.HashMap.getElem?_empty
  rowOfName _ := Std.HashMap.getElem?_empty
  compactCount := rfl
  frozen := rfl
  fingerprintCell := rfl

theorem Holds.defined (h : tables.Holds registry) :
    tables.rows.toList.map (·.event) = registry.defined := by
  rw [h.rows, List.map_map]
  rfl

theorem Holds.size (h : tables.Holds registry) : tables.rows.size = registry.size := by
  rw [← Array.length_toList, h.rows, List.length_map]
  rfl

theorem Holds.eventAt? (h : tables.Holds registry) (row : Nat) :
    tables.eventAt? row = registry.defined[row]? := by
  rw [Tables.eventAt?, ← h.defined, List.getElem?_map, Array.getElem?_toList]

theorem Holds.eventOfId? (h : tables.Holds registry) (id : UInt32) :
    tables.eventOfId? id = registry.eventOfId? id := by
  rw [Tables.eventOfId?, h.rowOfId, Registry.eventOfId?, Registry.find?_eq_bind_placeOf?]
  exact congrArg _ (funext h.eventAt?)

theorem Holds.eventOfName? (h : tables.Holds registry) (name : String) :
    tables.eventOfName? name = registry.eventOfName? name := by
  rw [Tables.eventOfName?, h.rowOfName, Registry.eventOfName?, Registry.find?_eq_bind_placeOf?]
  exact congrArg _ (funext h.eventAt?)

/-! ## Adding an event in place -/

section Writing

variable {event : Event}

theorem enter_compact (tables : Tables) (h : event.id ≤ maxCompactId) :
    (enter event tables).2 = { tables with
      rows := tables.rows.push ⟨event, none⟩
      compact :=
        tables.compact.set event.id.toNat (some tables.rows.size) (toNat_lt_compactIdCount h)
      byName := tables.byName.insert event.name tables.rows.size
      compactCount := tables.compactCount + 1
      fingerprintCell := none } := by
  unfold enter
  simp only [dif_pos h]
  rfl

theorem enter_extended (tables : Tables) (h : ¬ event.id ≤ maxCompactId) :
    (enter event tables).2 = { tables with
      rows := tables.rows.push ⟨event, none⟩
      extended := tables.extended.insert event.id tables.rows.size
      byName := tables.byName.insert event.name tables.rows.size
      fingerprintCell := none } := by
  unfold enter
  simp only [dif_neg h]
  rfl

/-- An id that is written to its table is found there, and so is every other. -/
theorem rowOfId?_enter (tables : Tables) (event : Event) (id : UInt32) :
    (enter event tables).2.rowOfId? id =
      if event.id = id then some tables.rows.size else tables.rowOfId? id := by
  by_cases hcompact : event.id ≤ maxCompactId
  · rw [enter_compact tables hcompact]
    unfold rowOfId?
    by_cases hid : id ≤ maxCompactId
    · simp only [dif_pos hid, Vector.getElem_set, UInt32.toNat_inj]
    · have hne : event.id ≠ id := fun h => hid (h ▸ hcompact)
      simp only [dif_neg hid, if_neg hne]
  · rw [enter_extended tables hcompact]
    unfold rowOfId?
    by_cases hid : id ≤ maxCompactId
    · have hne : event.id ≠ id := fun h => hcompact (h ▸ hid)
      simp only [dif_pos hid, if_neg hne]
    · simp only [dif_neg hid, Std.HashMap.getElem?_insert, beq_iff_eq]

theorem rowOfName?_enter (tables : Tables) (event : Event) (name : String) :
    (enter event tables).2.rowOfName? name =
      if event.name = name then some tables.rows.size else tables.rowOfName? name := by
  have hbyName : (enter event tables).2.byName =
      tables.byName.insert event.name tables.rows.size := by
    by_cases hcompact : event.id ≤ maxCompactId
    · rw [enter_compact tables hcompact]
    · rw [enter_extended tables hcompact]
  simp only [rowOfName?, hbyName, Std.HashMap.getElem?_insert, beq_iff_eq]

/-- What is the same in both tables of ids. -/
theorem enter_rest (tables : Tables) (event : Event) :
    (enter event tables).2.settings = tables.settings ∧
      (enter event tables).2.rows = tables.rows.push ⟨event, none⟩ ∧
      (enter event tables).2.compactCount =
        tables.compactCount + (if event.isExtended then 0 else 1) ∧
      (enter event tables).2.frozen = tables.frozen ∧
      (enter event tables).2.fingerprintCell = none := by
  by_cases hcompact : event.id ≤ maxCompactId
  · have hextended := Event.isExtended_eq_false_iff.mpr hcompact
    rw [enter_compact tables hcompact, hextended]
    exact ⟨rfl, rfl, rfl, rfl, rfl⟩
  · have hextended : event.isExtended = true := decide_eq_true (UInt32.not_le.mp hcompact)
    rw [enter_extended tables hcompact, hextended]
    exact ⟨rfl, rfl, rfl, rfl, rfl⟩

end Writing

/-- **What is written fits together**, if the id and the name were free. -/
theorem Holds.enter (h : tables.Holds registry) {event : Event}
    (hid : registry.eventOfId? event.id = none) (hname : registry.eventOfName? event.name = none) :
    (enter event tables).2.Holds (registry.add event) := by
  obtain ⟨hsettings, hrows, hcount, hfrozen, hcell⟩ := enter_rest tables event
  refine ⟨hsettings.trans h.settings, ?_, ?_, ?_, ?_, ?_, hcell⟩
  · rw [hrows, Array.toList_push, h.rows]
    simp [Registry.add, Row.of, Memo.stored?, Memo.empty]
  · intro id
    rw [rowOfId?_enter, Registry.placeOf?_add hid, h.size, h.rowOfId]
  · intro name
    rw [rowOfName?_enter, Registry.placeOf?_add hname, h.size, h.rowOfName]
  · rw [hcount, h.compactCount, Registry.compactCount_add]
  · rw [hfrozen, h.frozen, Registry.isFrozen_add]

section Running

variable {α β : Type} (tables : Tables)

theorem run_get_bind (next : Tables → ExceptT SchemaError (StateM Tables) β) :
    (get >>= next).run tables = (next tables).run tables := rfl

theorem run_throw_bind (error : SchemaError) (next : α → ExceptT SchemaError (StateM Tables) β) :
    (throw error >>= next).run tables = (.error error, tables) := rfl

theorem run_liftExcept_bind (given : Except SchemaError α)
    (next : α → ExceptT SchemaError (StateM Tables) β) :
    (liftExcept given >>= next).run tables =
      match given with
      | .ok x => (next x).run tables
      | .error error => (.error error, tables) := by
  cases given <;> rfl

/-- What a definition comes to. All refusals come before the first write. -/
theorem run_define (id : UInt32) (name : String) (fields : List Field) :
    (define id name fields).run tables =
      if tables.frozen then (.error (.frozen name), tables)
      else match Event.define id name fields with
      | .error error => (.error error, tables)
      | .ok event =>
        match tables.eventOfId? id with
        | some existing => (.error (.duplicateId id existing.name), tables)
        | none =>
          match tables.eventOfName? event.name with
          | some existing => (.error (.duplicateName event.name existing.id), tables)
          | none =>
            let limit := tables.settings.maxCompactEvents
            if id ≤ maxCompactId ∧ limit ≤ tables.compactCount then
              (.error (.tooManyEvents limit), tables)
            else (.ok (), (enter event tables).2) := by
  by_cases hfrozen : tables.frozen
  · simp only [define, run_get_bind, hfrozen, if_true, run_throw_bind]
  simp only [define, run_get_bind, hfrozen, Bool.false_eq_true, if_false, run_liftExcept_bind]
  cases Event.define id name fields with
  | error error => rfl
  | ok event =>
    dsimp only
    cases tables.eventOfId? id with
    | some existing => rfl
    | none =>
      dsimp only [run_get_bind]
      cases tables.eventOfName? event.name with
      | some existing => rfl
      | none =>
        dsimp only [run_get_bind]
        split <;> rfl

end Running

/-- **A definition in place is the definition.** If it is refused, the tables are what
they were; if it is accepted, they hold the registry that it gives. -/
theorem Holds.define (h : tables.Holds registry) (id : UInt32) (name : String)
    (fields : List Field) :
    (∀ error, registry.define id name fields = .error error →
      (Tables.define id name fields).run tables = (.error error, tables)) ∧
    ∀ next, registry.define id name fields = .ok next →
      ∃ after, (Tables.define id name fields).run tables = (.ok (), after) ∧
        after.Holds next := by
  rw [run_define, h.frozen, h.eventOfId?, h.settings, h.compactCount]
  unfold Registry.define
  by_cases hfrozen : registry.isFrozen = true
  · simp [hfrozen]
  simp only [hfrozen, Bool.false_eq_true, if_false]
  cases hevent : Event.define id name fields with
  | error error => simp [bind, Except.bind]
  | ok event =>
    obtain ⟨rfl, rfl⟩ := Event.id_name_of_define hevent
    simp only [h.eventOfName?, bind, Except.bind, Registry.checkRoom]
    cases hid : registry.eventOfId? event.id with
    | some existing => simp
    | none =>
      cases hname : registry.eventOfName? event.name with
      | some existing => simp
      | none =>
        simp only [Bool.and_eq_true, Bool.not_eq_true', Event.isExtended_eq_false_iff,
          decide_eq_true_eq]
        by_cases hfull :
            event.id ≤ maxCompactId ∧ registry.settings.maxCompactEvents ≤ registry.compactCount
        · simp only [if_pos hfull]
          simp
        · simp only [if_neg hfull]
          refine ⟨nofun, fun next hnext => ?_⟩
          cases hnext
          exact ⟨_, rfl, h.enter hid hname⟩

end Tables

end EventWire
