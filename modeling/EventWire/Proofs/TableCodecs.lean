/-
EventWire.Proofs.TableCodecs — codecs of a registry that is kept in tables.

A codec is compiled into the cell of its row when it is first asked for, and that
freezes the registry; the fingerprint has a cell as well, which is emptied by the next
definition. No cell is ever stale: what it holds is what would be worked out
(`Memo.eq_of_stored?`).

Every operation on tables follows the one on the registry that they hold: it gives the
same answer and leaves tables that hold the registry after it (`Tables.Follows`). What
a row is asked for comes down to one lemma (`Tables.Holds.codecAt`).
-/
import EventWire.Proofs.Tables

namespace EventWire

namespace Tables

/-! ## Resolving codecs -/

/-- The codec of a row. The first that is compiled freezes the registry. -/
def codecAt (row : Nat) : StateM Tables (Option Codec) := do
  match (← get).rows[row]? with
  | none => return none
  | some ⟨_, some codec⟩ => return some codec
  | some ⟨event, none⟩ =>
    modify fun tables => { tables with frozen := true }
    let codec := Codec.compile event (← get).settings.typecheck
    modify fun tables => { tables with
      rows := tables.rows.setIfInBounds row ⟨event, some codec⟩ }
    return some codec

def codecOfId? (id : UInt32) : StateM Tables (Option Codec) := do
  match (← get).rowOfId? id with
  | some row => codecAt row
  | none => return none

def codecOfName? (name : String) : StateM Tables (Option Codec) := do
  match (← get).rowOfName? name with
  | some row => codecAt row
  | none => return none

def codecOfHeader? (header : Header) : StateM Tables (Option Codec) := do
  if header.isCanonical then codecOfId? header.id else return none

/-- Resolves the codecs of all rows; answers with their number. -/
def compileAll : StateM Tables Nat := do
  (List.range (← get).rows.size).forM fun row => discard (codecAt row)
  return (← get).rows.size

def fingerprint : StateM Tables Fingerprint := do
  match (← get).fingerprintCell with
  | some fingerprint => return fingerprint
  | none =>
    let fingerprint := Fingerprint.ofEvents ((← get).rows.toList.map (·.event))
    modify fun tables => { tables with fingerprintCell := some fingerprint }
    return fingerprint

/-! ## Records by event -/

def encode (name : String) (record : Record) : StateM Tables (Except CodecError Bytes) := do
  match ← codecOfName? name with
  | some codec => return codec.encode record
  | none => return .error (.unknownEvent name)

/-- The record at the start of `data`. Its event is looked up when it has been read. -/
def decodeFirst (data : Bytes) : StateM Tables (Except CodecError Registry.Decoded) := do
  match Header.read? data with
  | none => return .error (Registry.truncatedHeader data)
  | some header =>
    match ← codecOfHeader? header with
    | none => return .error (.unknownPacket header.id 0)
    | some codec =>
      match codec.decode data with
      | .error error => return .error error
      | .ok (record, size) =>
        match (← get).eventOfId? header.id with
        | some event => return .ok ⟨event, record, size⟩
        | none => return .error (.unknownPacket header.id 0)

def decode (data : Bytes) : StateM Tables (Except CodecError (String × Record)) := do
  let decoded ← decodeFirst data
  return decoded.map fun first => (first.event.name, first.record)

def reconstruct (name : String) (record : Record) :
    StateM Tables (Except CodecError (String × Record)) := do
  match ← encode name record with
  | .ok bytes => decode bytes
  | .error error => return .error error

end Tables

/-! ## Cells -/

theorem Memo.stored?_fill {α : Type} {value : α} (cell : Memo value) :
    cell.fill.stored? = some value :=
  congrArg some cell.get_eq

theorem Memo.stored?_cast {α : Type} {value other : α} (h : value = other) (cell : Memo value) :
    (cell.cast h).stored? = cell.stored? := by
  subst h
  rfl

theorem Memo.cast_cast {α : Type} {value other another : α} (h : value = other)
    (h' : other = another) (cell : Memo value) :
    (cell.cast h).cast h' = cell.cast (h.trans h') := by
  subst h h'
  rfl

theorem Memo.eq_of_stored? {α : Type} {value x : α} {cell : Memo value}
    (h : cell.stored? = some x) : x = value := by
  obtain ⟨⟨y, hy⟩, -, rfl⟩ := Option.map_eq_some_iff.mp h
  exact hy

theorem Memo.isFull_eq {α : Type} {value : α} (cell : Memo value) :
    cell.isFull = cell.stored?.isSome := by
  cases cell <;> rfl

theorem Schema.find?_of_resolveHeader {schema : Schema} {header : Header} {event : Event}
    {codec : Codec} (h : schema.resolveHeader header = some (event, codec)) :
    schema.events.find? (·.id = header.id) = some event := by
  unfold Schema.resolveHeader at h
  split at h
  · obtain ⟨found, hfound, hpair⟩ := Option.map_eq_some_iff.mp h
    cases hpair
    exact hfound
  · exact nomatch h

/-! ## The registry, codec by codec -/

theorem getElem?_foldl_modify {α : Type} (f : α → α) (xs : List α) (n i : Nat) :
    ((List.range n).foldl (fun xs row => xs.modify row f) xs)[i]? =
      xs[i]?.map fun x => if i < n then f x else x := by
  induction n with
  | zero => simp
  | succ n ih =>
    rw [List.range_succ, List.foldl_append, List.foldl_cons, List.foldl_nil, List.getElem?_modify,
      ih, Option.map_eq_map, Option.map_map]
    congr 1
    funext x
    dsimp only [Function.comp_apply]
    split_ifs <;> first | rfl | omega

/-- To change all, one after the other. -/
theorem foldl_modify {α : Type} (f : α → α) (xs : List α) :
    (List.range xs.length).foldl (fun xs row => xs.modify row f) xs = xs.map f := by
  refine List.ext_getElem? fun i => ?_
  rw [getElem?_foldl_modify, List.getElem?_map]
  by_cases hi : i < xs.length
  · simp only [if_pos hi]
  · rw [List.getElem?_eq_none (Nat.not_lt.mp hi)]
    rfl

namespace Registry

variable {registry : Registry}

theorem map_event_modify {typecheck : Bool} (entries : List (Entry typecheck)) (row : Nat) :
    (entries.modify row Entry.compiled).map (·.event) = entries.map (·.event) := by
  refine List.ext_getElem? fun i => ?_
  rw [List.getElem?_map, List.getElem?_map, List.getElem?_modify, Option.map_eq_map,
    Option.map_map]
  congr 1
  funext entry
  dsimp only [Function.comp_apply]
  split <;> rfl

/-- The registry with the codec of a row remembered. -/
def compileAt (registry : Registry) (row : Nat) : Registry :=
  registry.withEntries (registry.entries.modify row Entry.compiled) (map_event_modify ..)

theorem resolveFirst_snd {typecheck : Bool} (wanted : Event → Bool)
    (entries : List (Entry typecheck)) :
    (resolveFirst wanted entries).2 =
      match (entries.map (·.event)).findIdx? wanted with
      | some row => entries.modify row Entry.compiled
      | none => entries := by
  induction entries with
  | nil => rfl
  | cons entry rest ih =>
    rw [List.map_cons, List.findIdx?_cons]
    unfold resolveFirst
    split
    · rfl
    · dsimp only
      rw [ih]
      cases (rest.map (·.event)).findIdx? wanted <;> rfl

theorem withEntries_congr {entries entries' : List (Entry registry.settings.typecheck)}
    (h : entries = entries')
    (same : entries.map (·.event) = registry.entries.map (·.event)) :
    registry.withEntries entries same = registry.withEntries entries' (h ▸ same) := by
  subst h
  rfl

theorem withEntries_withEntries {entries entries' : List (Entry registry.settings.typecheck)}
    (same : entries.map (·.event) = registry.entries.map (·.event))
    (same' : entries'.map (·.event) = entries.map (·.event)) :
    (registry.withEntries entries same).withEntries entries' same' =
      registry.withEntries entries' (same'.trans same) :=
  congrArg (Registry.mk _ _) (Memo.cast_cast ..)

/-- A wanted codec is that of a row. -/
theorem resolve_snd_of_some {wanted : Event → Bool} {row : Nat}
    (h : registry.placeOf? wanted = some row) :
    (registry.resolve wanted).2 = registry.compileAt row := by
  refine withEntries_congr ?_ (map_event_resolveFirst ..)
  rw [placeOf?, defined] at h
  rw [resolveFirst_snd, h]

theorem resolve_snd_of_none {wanted : Event → Bool} (h : registry.placeOf? wanted = none) :
    (registry.resolve wanted).2 = registry := by
  have hentries : (resolveFirst wanted registry.entries).2 = registry.entries := by
    rw [placeOf?, defined] at h
    rw [resolveFirst_snd, h]
  exact withEntries_congr hentries (map_event_resolveFirst ..)

theorem foldl_compileAt (registry : Registry) (rows : List Nat) :
    ∃ same, rows.foldl compileAt registry =
      registry.withEntries
        (rows.foldl (fun entries row => entries.modify row Entry.compiled) registry.entries)
        same := by
  induction rows generalizing registry with
  | nil => exact ⟨rfl, rfl⟩
  | cons row rows ih =>
    obtain ⟨same, hrest⟩ := ih (registry.compileAt row)
    refine ⟨same.trans (map_event_modify ..), ?_⟩
    rw [List.foldl_cons, hrest]
    exact withEntries_withEntries (map_event_modify ..) same

/-- All codecs are resolved one row after the other. -/
theorem compileAll_snd (registry : Registry) :
    registry.compileAll.2 = (List.range registry.size).foldl compileAt registry := by
  obtain ⟨same, hrows⟩ := foldl_compileAt registry (List.range registry.size)
  rw [hrows]
  exact withEntries_congr (foldl_modify ..).symm (map_event_compiled ..)

end Registry

namespace Tables

variable {tables : Tables} {registry : Registry}

/-! ## Codecs -/

theorem isFrozen_eq (registry : Registry) :
    registry.isFrozen = (registry.entries.map Row.of).any (·.codec.isSome) := by
  rw [List.any_map]
  exact congrArg registry.entries.any (funext fun entry => Memo.isFull_eq entry.codec)

/-- Other entries of the same events leave the tables of ids and names as they are. -/
theorem Holds.withEntries (h : tables.Holds registry) {rows : Array Row}
    {entries : List (Registry.Entry registry.settings.typecheck)}
    (same : entries.map (·.event) = registry.entries.map (·.event))
    (hrows : rows.toList = entries.map Row.of) {frozen : Bool}
    (hfrozen : frozen = rows.toList.any (·.codec.isSome)) :
    Holds { tables with rows, frozen } (registry.withEntries entries same) where
  settings := h.settings
  rows := hrows
  rowOfId id := by
    have hplace := h.rowOfId id
    rw [Registry.placeOf?] at hplace ⊢
    exact hplace.trans (congrArg _ same.symm)
  rowOfName name := by
    have hplace := h.rowOfName name
    rw [Registry.placeOf?] at hplace ⊢
    exact hplace.trans (congrArg _ same.symm)
  compactCount := h.compactCount.trans (congrArg (List.countP _) same.symm)
  frozen := by
    rw [hfrozen, hrows, isFrozen_eq]
    rfl
  fingerprintCell := h.fingerprintCell.trans (Memo.stored?_cast ..).symm

theorem of_compiled {typecheck : Bool} (entry : Registry.Entry typecheck) :
    Row.of entry.compiled = ⟨entry.event, some (Codec.compile entry.event typecheck)⟩ := by
  rw [Row.of, Registry.Entry.compiled, Memo.stored?_fill]

theorem set_of_getElem?_eq {α : Type} {xs : List α} {i : Nat} {x : α} (h : xs[i]? = some x) :
    xs.set i x = xs := by
  obtain ⟨hi, rfl⟩ := List.getElem?_eq_some_iff.mp h
  exact List.set_getElem_self hi

/-- A row with its codec, written where the row was. -/
theorem map_of_modify {typecheck : Bool} {entries : List (Registry.Entry typecheck)} {row : Nat}
    {entry : Registry.Entry typecheck} (hentry : entries[row]? = some entry) :
    (entries.modify row Registry.Entry.compiled).map Row.of =
      (entries.map Row.of).set row
        ⟨entry.event, some (Codec.compile entry.event typecheck)⟩ := by
  rw [List.modify_eq_set_getElem?, hentry, ← of_compiled]
  exact List.map_set ..

theorem map_of_modify_of_none {typecheck : Bool} {entries : List (Registry.Entry typecheck)}
    {row : Nat} (hentry : entries[row]? = none) :
    (entries.modify row Registry.Entry.compiled).map Row.of = entries.map Row.of := by
  rw [List.modify_eq_set_getElem?, hentry]
  rfl

section Running

variable {α β : Type} {tables : Tables} {row : Nat} {event : Event} {codec : Codec}

theorem get_bind_apply (tables : Tables) (next : Tables → StateM Tables β) :
    (get >>= next) tables = next tables tables := rfl

theorem bind_apply (act : StateM Tables α) (next : α → StateM Tables β) (tables : Tables) :
    (act >>= next) tables = next (act tables).1 (act tables).2 := rfl

theorem codecAt_past (h : tables.rows[row]? = none) : codecAt row tables = (none, tables) := by
  rw [codecAt, get_bind_apply, h]
  rfl

theorem codecAt_full (h : tables.rows[row]? = some ⟨event, some codec⟩) :
    codecAt row tables = (some codec, tables) := by
  rw [codecAt, get_bind_apply, h]
  rfl

theorem codecAt_empty (h : tables.rows[row]? = some ⟨event, none⟩) :
    codecAt row tables =
      (some (Codec.compile event tables.settings.typecheck),
        { tables with
          rows := tables.rows.setIfInBounds row
            ⟨event, some (Codec.compile event tables.settings.typecheck)⟩
          frozen := true }) := by
  rw [codecAt, get_bind_apply, h]
  rfl

end Running

/-- **The codec of a row** is found in its cell or written to it. -/
theorem Holds.codecAt (h : tables.Holds registry) (row : Nat) :
    (codecAt row tables).1 = registry.defined[row]?.map registry.schema.codec ∧
      (codecAt row tables).2.Holds (registry.compileAt row) := by
  have hrow : tables.rows[row]? = registry.entries[row]?.map Row.of := by
    rw [← Array.getElem?_toList, h.rows, List.getElem?_map]
  have hdefined : registry.defined[row]? = registry.entries[row]?.map (·.event) :=
    List.getElem?_map ..
  have hfrozen : tables.frozen = tables.rows.toList.any (·.codec.isSome) := by
    rw [h.frozen, h.rows, isFrozen_eq]
  have hsame := Registry.map_event_modify registry.entries row
  cases hentry : registry.entries[row]? with
  | none =>
    rw [hentry] at hrow hdefined
    rw [codecAt_past hrow, hdefined]
    refine ⟨rfl, h.withEntries hsame ?_ hfrozen⟩
    rw [map_of_modify_of_none hentry, h.rows]
  | some entry =>
    rw [hentry] at hrow hdefined
    have hwritten := map_of_modify hentry
    have hcodec : Codec.compile entry.event tables.settings.typecheck =
        Codec.compile entry.event registry.settings.typecheck := by
      rw [h.settings]
    cases hcell : entry.codec.stored? with
    | some codec =>
      -- the cell is full, so it has the codec that would be written
      obtain rfl := Memo.eq_of_stored? hcell
      have hof : Row.of entry =
          ⟨entry.event, some (Codec.compile entry.event registry.settings.typecheck)⟩ := by
        rw [Row.of, hcell]
      rw [Option.map_some, hof] at hrow
      rw [codecAt_full hrow, hdefined]
      refine ⟨rfl, h.withEntries hsame ?_ hfrozen⟩
      rw [hwritten, ← h.rows]
      exact (set_of_getElem?_eq (Array.getElem?_toList.trans hrow)).symm
    | none =>
      have hof : Row.of entry = ⟨entry.event, none⟩ := by
        rw [Row.of, hcell]
      rw [Option.map_some, hof] at hrow
      rw [codecAt_empty hrow, hdefined]
      refine ⟨congrArg some hcodec, h.withEntries hsame ?_ ?_⟩
      · rw [Array.toList_setIfInBounds, hcodec, hwritten, h.rows]
      · rw [Array.toList_setIfInBounds, eq_comm, List.any_eq_true]
        have hlt : row < tables.rows.toList.length :=
          (List.getElem?_eq_some_iff.mp (Array.getElem?_toList.trans hrow)).1
        exact ⟨_, List.mem_set hlt _, rfl⟩

/-! ## Operations -/

/-- Whatever registry the tables hold, the two give the same answer, and the tables
after the one hold the registry after the other. -/
def Follows {α : Type} (act : StateM Tables α) (op : Registry → α × Registry) : Prop :=
  ∀ ⦃tables registry⦄, Holds tables registry →
    (act tables).1 = (op registry).1 ∧ (act tables).2.Holds (op registry).2

theorem Follows.exists_eq {α : Type} {act : StateM Tables α} {op : Registry → α × Registry}
    (hact : Follows act op) (h : tables.Holds registry) {answer : α} {after : Registry}
    (hop : op registry = (answer, after)) :
    ∃ next, act tables = (answer, next) ∧ next.Holds after := by
  obtain ⟨hanswer, hafter⟩ := hact h
  rw [hop] at hanswer hafter
  exact ⟨_, Prod.ext hanswer rfl, hafter⟩

theorem Holds.resolve (h : tables.Holds registry) (wanted : Event → Bool)
    {act : StateM Tables (Option Codec)}
    (hact : act tables =
      match registry.placeOf? wanted with
      | some row => Tables.codecAt row tables
      | none => (none, tables)) :
    (act tables).1 = (registry.resolve wanted).1.map Prod.snd ∧
      (act tables).2.Holds (registry.resolve wanted).2 := by
  rw [hact, Registry.resolve_codec, Registry.find?_eq_bind_placeOf?]
  cases hplace : registry.placeOf? wanted with
  | none =>
    rw [Registry.resolve_snd_of_none hplace]
    exact ⟨rfl, h⟩
  | some row =>
    rw [Registry.resolve_snd_of_some hplace]
    exact h.codecAt row

theorem follows_codecOfId? (id : UInt32) : Follows (codecOfId? id) (·.codecOfId? id) := by
  intro tables registry h
  refine h.resolve (·.id = id) ?_
  rw [codecOfId?, get_bind_apply, h.rowOfId]
  cases registry.placeOf? (·.id = id) <;> rfl

theorem follows_codecOfName? (name : String) :
    Follows (codecOfName? name) (·.codecOfName? name) := by
  intro tables registry h
  refine h.resolve (·.name = name) ?_
  rw [codecOfName?, get_bind_apply, h.rowOfName]
  cases registry.placeOf? (·.name = name) <;> rfl

theorem follows_codecOfHeader? (header : Header) :
    Follows (codecOfHeader? header) (·.codecOfHeader? header) := by
  intro tables registry h
  have hid := follows_codecOfId? header.id h
  unfold codecOfHeader? Registry.codecOfHeader? Registry.resolveHeader
  split
  · exact hid
  · exact ⟨rfl, h⟩

theorem fingerprint_full {tables : Tables} {stored : Fingerprint}
    (h : tables.fingerprintCell = some stored) : fingerprint tables = (stored, tables) := by
  rw [fingerprint, get_bind_apply, h]
  rfl

theorem fingerprint_empty {tables : Tables} (h : tables.fingerprintCell = none) :
    fingerprint tables =
      (Fingerprint.ofEvents (tables.rows.toList.map (·.event)),
        { tables with
          fingerprintCell := some (Fingerprint.ofEvents (tables.rows.toList.map (·.event))) }) := by
  rw [fingerprint, get_bind_apply, h]
  rfl

theorem follows_fingerprint : Follows fingerprint (·.fingerprint) := by
  intro tables registry h
  have hcell := h.fingerprintCell
  have hfilled : registry.fingerprint.2.fingerprintMemo.stored? =
      some (Fingerprint.ofEvents registry.defined) := Memo.stored?_fill registry.fingerprintMemo
  dsimp only
  rw [Registry.fingerprint_fst]
  cases hstored : registry.fingerprintMemo.stored? with
  | some stored =>
    obtain rfl := Memo.eq_of_stored? hstored
    rw [hstored] at hcell
    rw [fingerprint_full hcell]
    exact ⟨rfl, { h with fingerprintCell := hcell.trans hfilled.symm }⟩
  | none =>
    rw [hstored] at hcell
    rw [fingerprint_empty hcell, h.defined]
    exact ⟨rfl, { h with fingerprintCell := hfilled.symm }⟩

theorem follows_encode (name : String) (record : Record) :
    Follows (encode name record) (·.encode name record) := by
  intro tables registry h
  dsimp only
  unfold encode Registry.encode
  rcases hfound : registry.codecOfName? name with ⟨found, after⟩
  obtain ⟨next, hnext, hholds⟩ := (follows_codecOfName? name).exists_eq h hfound
  rw [bind_apply, hnext]
  cases found with
  | none => exact ⟨rfl, hholds⟩
  | some codec => exact ⟨rfl, hholds⟩

/-- The event that is looked up again is the one of the codec. -/
theorem follows_decodeFirst (data : Bytes) :
    Follows (decodeFirst data) (·.decodeFirst data) := by
  intro tables registry h
  dsimp only
  unfold decodeFirst Registry.decodeFirst
  cases Header.read? data with
  | none => exact ⟨rfl, h⟩
  | some header =>
    obtain ⟨hcodec, hafter⟩ := follows_codecOfHeader? header h
    have hresolved := Registry.resolveHeader_fst registry header
    have hschema := Registry.schema_resolveHeader registry header
    dsimp only [Registry.codecOfHeader?] at hcodec hafter ⊢
    rw [bind_apply, hcodec]
    rcases hfound : registry.resolveHeader header with ⟨_ | ⟨event, codec⟩, after⟩
    · rw [hfound] at hafter
      exact ⟨rfl, hafter⟩
    · rw [hfound] at hafter hresolved hschema
      dsimp only [Option.map_some]
      cases hdecode : codec.decode data with
      | error error => exact ⟨rfl, hafter⟩
      | ok read =>
        have hdefined : after.defined = registry.defined := congrArg Schema.events hschema
        have hevent : after.eventOfId? header.id = some event := by
          rw [Registry.eventOfId?, hdefined]
          exact Schema.find?_of_resolveHeader hresolved.symm
        dsimp only
        rw [get_bind_apply, hafter.eventOfId?, hevent]
        exact ⟨rfl, hafter⟩

theorem follows_decode (data : Bytes) : Follows (decode data) (·.decode data) := by
  intro tables registry h
  obtain ⟨next, hnext, hholds⟩ := (follows_decodeFirst data).exists_eq h rfl
  rw [decode, bind_apply, hnext]
  exact ⟨rfl, hholds⟩

theorem follows_reconstruct (name : String) (record : Record) :
    Follows (reconstruct name record) (·.reconstruct name record) := by
  intro tables registry h
  dsimp only
  unfold reconstruct Registry.reconstruct
  rcases hencode : registry.encode name record with ⟨encoded, after⟩
  obtain ⟨next, hnext, hholds⟩ := (follows_encode name record).exists_eq h hencode
  rw [bind_apply, hnext]
  cases encoded with
  | error error => exact ⟨rfl, hholds⟩
  | ok bytes => exact follows_decode bytes hholds

theorem Holds.forM_codecAt (h : tables.Holds registry) (rows : List Nat) :
    (rows.forM (fun row => discard (Tables.codecAt row)) tables).2.Holds
      (rows.foldl Registry.compileAt registry) := by
  induction rows generalizing tables registry with
  | nil => exact h
  | cons row rows ih => exact ih (h.codecAt row).2

theorem follows_compileAll : Follows compileAll (·.compileAll) := by
  intro tables registry h
  have hafter := h.forM_codecAt (List.range registry.size)
  rw [← Registry.compileAll_snd] at hafter
  dsimp only
  rw [compileAll, get_bind_apply, bind_apply, h.size]
  exact ⟨hafter.size.trans (List.length_map ..), hafter⟩

end Tables

end EventWire
