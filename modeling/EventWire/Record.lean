/-
EventWire.Record — records: finite maps from field names to values, in name order.

Names are compared by code points, which is also the order of their UTF-8 bytes. The order is part
of the type (`Record.ascending`), so two records that hold the same values under the same names
are equal (`Record.ext_get?`), whatever order they were built in.

* `get?` — the value under a name. `get?_insert` and `get?_erase` say what the two updates do to
  it, and nothing else need be known about them.
* `ofList` — a record from pairs; the last of several under one name counts.
* `restrict` — the part under some of the names.
-/
import EventWire.Value

namespace EventWire

/-- Entries in strictly ascending order of their names. -/
abbrev Ascending (entries : List (String × Value)) : Prop :=
  entries.Pairwise fun a b => a.1 < b.1

/-- A finite map from field names to values. -/
structure Record where
  /-- The entries, in name order. -/
  entries : List (String × Value)
  ascending : Ascending entries
deriving DecidableEq

namespace Record

/-! ## Entry lists -/

/-- The entries with `value` under `name`, in place of what was there. -/
def insertEntry (name : String) (value : Value) : List (String × Value) → List (String × Value)
  | [] => [(name, value)]
  | entry :: rest =>
    if name < entry.1 then (name, value) :: entry :: rest
    else if name = entry.1 then (name, value) :: rest
    else entry :: insertEntry name value rest

theorem mem_insertEntry {name : String} {value : Value} {entries : List (String × Value)}
    {entry : String × Value} (h : entry ∈ insertEntry name value entries) :
    entry = (name, value) ∨ entry ∈ entries := by
  induction entries with
  | nil => simpa [insertEntry] using h
  | cons head rest ih =>
    unfold insertEntry at h
    split at h
    · simpa using h
    · split at h
      · rcases List.mem_cons.1 h with h | h
        · exact .inl h
        · exact .inr (List.mem_cons_of_mem _ h)
      · rcases List.mem_cons.1 h with h | h
        · exact .inr (h ▸ List.mem_cons_self)
        · exact (ih h).imp_right (List.mem_cons_of_mem _)

theorem ascending_insertEntry (name : String) (value : Value) {entries : List (String × Value)}
    (h : Ascending entries) : Ascending (insertEntry name value entries) := by
  induction entries with
  | nil => simp [insertEntry, Ascending]
  | cons head rest ih =>
    obtain ⟨below, tail⟩ := List.pairwise_cons.1 h
    unfold insertEntry
    split
    case isTrue lt =>
      refine List.pairwise_cons.2 ⟨fun entry mem => ?_, h⟩
      rcases List.mem_cons.1 mem with rfl | mem
      · exact lt
      · exact String.lt_trans lt (below entry mem)
    case isFalse notLt =>
      split
      case isTrue same =>
        refine List.pairwise_cons.2 ⟨fun entry mem => ?_, tail⟩
        exact same ▸ below entry mem
      case isFalse other =>
        refine List.pairwise_cons.2 ⟨fun entry mem => ?_, ih tail⟩
        rcases mem_insertEntry mem with rfl | mem
        · refine Decidable.byContradiction fun notGt => other ?_
          exact String.le_antisymm (String.not_lt.1 notGt) (String.not_lt.1 notLt)
        · exact below entry mem

/-- The value of the first entry under `name`. -/
def lookupEntry (name : String) : List (String × Value) → Option Value
  | [] => none
  | entry :: rest => if name = entry.1 then some entry.2 else lookupEntry name rest

/-- What is found under a name after an insertion. -/
theorem lookupEntry_insertEntry (name : String) (value : Value) (entries : List (String × Value))
    (other : String) :
    lookupEntry other (insertEntry name value entries) =
      if other = name then some value else lookupEntry other entries := by
  induction entries with
  | nil => rfl
  | cons head rest ih =>
    unfold insertEntry
    split
    · rfl
    · split
      · by_cases h : other = name <;> simp_all [lookupEntry]
      · by_cases h : other = head.1
        · have : other ≠ name := by
            rintro rfl
            contradiction
          simp [lookupEntry, h] at *
          simp [this]
        · simp [lookupEntry, h, ih]

theorem lookupEntry_filter (keep : String → Bool) (entries : List (String × Value))
    (name : String) :
    lookupEntry name (entries.filter fun entry => keep entry.1) =
      if keep name then lookupEntry name entries else none := by
  induction entries with
  | nil => simp [lookupEntry]
  | cons head rest ih =>
    by_cases kept : keep head.1
    · by_cases h : name = head.1
      · simp [lookupEntry, kept, h]
      · simp [lookupEntry, kept, h, ih]
    · rw [List.filter_cons_of_neg (by simpa using kept), ih]
      by_cases h : name = head.1
      · simp [kept, h]
      · simp [lookupEntry, h]

theorem lookupEntry_eq_none_of_forall_lt {name : String} {entries : List (String × Value)}
    (h : ∀ entry ∈ entries, name < entry.1) : lookupEntry name entries = none := by
  induction entries with
  | nil => rfl
  | cons head rest ih =>
    have ne : name ≠ head.1 := by
      intro same
      have lt := h head List.mem_cons_self
      rw [same] at lt
      exact String.lt_irrefl _ lt
    rw [lookupEntry, if_neg ne, ih fun entry mem => h entry (List.mem_cons_of_mem _ mem)]

/-- Entry lists in name order are equal when the same is found under every name. -/
theorem eq_of_lookupEntry_eq {a b : List (String × Value)} (ha : Ascending a) (hb : Ascending b)
    (h : ∀ name, lookupEntry name a = lookupEntry name b) : a = b := by
  induction a generalizing b with
  | nil =>
    cases b with
    | nil => rfl
    | cons head rest => simpa [lookupEntry] using h head.1
  | cons x xs ih =>
    cases b with
    | nil => simpa [lookupEntry] using h x.1
    | cons y ys =>
      obtain ⟨xBelow, xTail⟩ := List.pairwise_cons.1 ha
      obtain ⟨yBelow, yTail⟩ := List.pairwise_cons.1 hb
      have same : x.1 = y.1 := by
        refine String.le_antisymm (String.not_lt.1 fun lt => ?_) (String.not_lt.1 fun lt => ?_)
        · have gone : lookupEntry y.1 (x :: xs) = none := by
            refine lookupEntry_eq_none_of_forall_lt fun entry mem => ?_
            rcases List.mem_cons.1 mem with rfl | mem
            · exact lt
            · exact String.lt_trans lt (xBelow entry mem)
          have found := h y.1
          rw [gone, lookupEntry, if_pos rfl] at found
          exact nomatch found
        · have gone : lookupEntry x.1 (y :: ys) = none := by
            refine lookupEntry_eq_none_of_forall_lt fun entry mem => ?_
            rcases List.mem_cons.1 mem with rfl | mem
            · exact lt
            · exact String.lt_trans lt (yBelow entry mem)
          have found := h x.1
          rw [gone, lookupEntry, if_pos rfl] at found
          exact nomatch found
      have value : x.2 = y.2 := by simpa [lookupEntry, same] using h x.1
      have rest : xs = ys := by
        refine ih xTail yTail fun name => ?_
        by_cases hn : name = x.1
        · rw [hn, lookupEntry_eq_none_of_forall_lt xBelow, same,
            lookupEntry_eq_none_of_forall_lt yBelow]
        · have := h name
          rwa [lookupEntry, if_neg hn, lookupEntry, if_neg (same ▸ hn)] at this
      rw [rest, Prod.ext same value]

/-! ## Records -/

/-- The record without fields. -/
def empty : Record := ⟨[], .nil⟩

instance : Inhabited Record := ⟨empty⟩
instance : EmptyCollection Record := ⟨empty⟩

/-- The value under a name. -/
def get? (record : Record) (name : String) : Option Value := lookupEntry name record.entries

/-- The record with `value` under `name`. -/
def insert (record : Record) (name : String) (value : Value) : Record :=
  ⟨insertEntry name value record.entries, ascending_insertEntry name value record.ascending⟩

/-- The record with nothing under `name`. -/
def erase (record : Record) (name : String) : Record :=
  ⟨record.entries.filter (·.1 ≠ name), record.ascending.filter _⟩

/-- The part of a record under the given names. -/
def restrict (record : Record) (names : List String) : Record :=
  ⟨record.entries.filter (·.1 ∈ names), record.ascending.filter _⟩

/-- A record from pairs, the last of several under one name. -/
def ofList (pairs : List (String × Value)) : Record :=
  pairs.foldl (fun record pair => record.insert pair.1 pair.2) empty

def contains (record : Record) (name : String) : Bool := (record.get? name).isSome

/-- The names in use, in order. -/
def names (record : Record) : List String := record.entries.map (·.1)

def size (record : Record) : Nat := record.entries.length

def isEmpty (record : Record) : Bool := record.entries.isEmpty

@[simp] theorem get?_empty (name : String) : empty.get? name = none := rfl

theorem get?_insert (record : Record) (name : String) (value : Value) (other : String) :
    (record.insert name value).get? other =
      if other = name then some value else record.get? other :=
  lookupEntry_insertEntry ..

theorem get?_erase (record : Record) (name other : String) :
    (record.erase name).get? other = if other = name then none else record.get? other := by
  have := lookupEntry_filter (fun n => decide (n ≠ name)) record.entries other
  by_cases h : other = name
  · simpa [get?, erase, h] using this
  · simpa [get?, erase, h] using this

theorem get?_restrict (record : Record) (names : List String) (name : String) :
    (record.restrict names).get? name = if name ∈ names then record.get? name else none := by
  have := lookupEntry_filter (fun n => decide (n ∈ names)) record.entries name
  simpa [get?, restrict] using this

/-- A record is the map from names to values that it answers. -/
theorem ext_get? {a b : Record} (h : ∀ name, a.get? name = b.get? name) : a = b := by
  cases a with
  | mk xs hx =>
    cases b with
    | mk ys hy =>
      cases eq_of_lookupEntry_eq hx hy h
      rfl

/-! ## Values of one type -/

def byte? (record : Record) (name : String) : Option UInt8 :=
  match record.get? name with
  | some (.scalar (.byte v)) => some v
  | _ => none

def int16? (record : Record) (name : String) : Option Int16 :=
  match record.get? name with
  | some (.scalar (.int16 v)) => some v
  | _ => none

def int32? (record : Record) (name : String) : Option Int32 :=
  match record.get? name with
  | some (.scalar (.int32 v)) => some v
  | _ => none

def float32? (record : Record) (name : String) : Option Ieee754.Binary32 :=
  match record.get? name with
  | some (.scalar (.float32 v)) => some v
  | _ => none

def float64? (record : Record) (name : String) : Option Ieee754.Binary64 :=
  match record.get? name with
  | some (.scalar (.float64 v)) => some v
  | _ => none

def string? (record : Record) (name : String) : Option String :=
  match record.get? name with
  | some (.string s) => some s
  | _ => none

def bytes? (record : Record) (name : String) : Option Bytes :=
  match record.get? name with
  | some (.bytes bs) => some bs
  | _ => none

end Record

end EventWire
