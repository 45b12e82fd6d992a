/-
EventWire.Proofs.RecordCalls — what a run of calls leaves in a record.

A record is a row of entries in name order, and a call walks along it from the front. It
stops at the first name that is not less than its own: there the entry is, or it is
nowhere (`Record.putEntry`, `Record.takeEntry`, `Record.entryValue?`). This is right only
as long as the row is in order, so every call has to leave it in order. Then each call
does to the row what the update does to the map (`Record.Call.perform_eq`), and answers
with what was under its name.

So after any run there is under each name what the last call that names it has left, or
what was there at first (`get?_updateAll`). Records are compared entry by entry, and floats
by their bits. In name order this is the same as asking for every name
(`same_iff_agree`), so the way in which a record has come about does not show.
-/
import EventWire.Proofs.Names
import EventWire.Record

namespace EventWire

/-! ## Equality -/

/-- Whether two values are of one kind and have the same content, floats bit by bit. -/
def Value.same : Value → Value → Bool
  | .scalar (.byte a), .scalar (.byte b) => a = b
  | .scalar (.int16 a), .scalar (.int16 b) => a = b
  | .scalar (.int32 a), .scalar (.int32 b) => a = b
  | .scalar (.float32 a), .scalar (.float32 b) => a.bits = b.bits
  | .scalar (.float64 a), .scalar (.float64 b) => a.bits = b.bits
  | .string a, .string b => a = b
  | .bytes a, .bytes b => a = b
  | _, _ => false

theorem Ieee754.Binary.bits_inj {f : Ieee754.Format} {a b : Ieee754.Binary f} :
    a.bits = b.bits ↔ a = b := by
  constructor
  · intro h
    cases a
    cases b
    exact congrArg _ h
  · rintro rfl
    rfl

theorem Value.same_iff {a b : Value} : a.same b ↔ a = b := by
  rcases a with (_ | _ | _ | _ | _) | _ | _ <;> rcases b with (_ | _ | _ | _ | _) | _ | _ <;>
    simp [Value.same, Ieee754.Binary.bits_inj]

namespace Record

/-- Whether the same is found, floats compared bit by bit. -/
def agree : Option Value → Option Value → Bool
  | none, none => true
  | some a, some b => a.same b
  | _, _ => false

theorem agree_iff {a b : Option Value} : agree a b ↔ a = b := by
  cases a <;> cases b <;> simp [agree, Value.same_iff]

/-- Whether two rows of entries are the same, entry by entry. -/
def sameEntries : List (String × Value) → List (String × Value) → Bool
  | [], [] => true
  | a :: as, b :: bs => a.1 = b.1 && a.2.same b.2 && sameEntries as bs
  | _, _ => false

theorem sameEntries_iff {as bs : List (String × Value)} : sameEntries as bs ↔ as = bs := by
  induction as generalizing bs with
  | nil => cases bs <;> simp [sameEntries]
  | cons a as ih =>
    cases bs with
    | nil => simp [sameEntries]
    | cons b bs => simp [sameEntries, ih, Value.same_iff, Prod.ext_iff]

/-! ## Calls on a row of entries -/

/-- Puts an entry in its place; also gives what was there before. -/
def putEntry (name : String) (value : Value) :
    List (String × Value) → Option Value × List (String × Value)
  | [] => (none, [(name, value)])
  | entry :: rest =>
    if name < entry.1 then (none, (name, value) :: entry :: rest)
    else if name = entry.1 then (some entry.2, (name, value) :: rest)
    else
      let (before, rest) := putEntry name value rest
      (before, entry :: rest)

/-- Takes an entry out; also gives what it was. -/
def takeEntry (name : String) : List (String × Value) → Option Value × List (String × Value)
  | [] => (none, [])
  | entry :: rest =>
    if name < entry.1 then (none, entry :: rest)
    else if name = entry.1 then (some entry.2, rest)
    else
      let (before, rest) := takeEntry name rest
      (before, entry :: rest)

def entryValue? (name : String) : List (String × Value) → Option Value
  | [] => none
  | entry :: rest =>
    if name < entry.1 then none
    else if name = entry.1 then some entry.2
    else entryValue? name rest

section Rows

variable {name : String} {entry : String × Value} {entries rest : List (String × Value)}

theorem forall_lt_of_lt_head (h : Ascending (entry :: rest)) (hlt : name < entry.1) :
    ∀ other ∈ entry :: rest, name < other.1 := by
  intro other hother
  rcases List.mem_cons.mp hother with rfl | hother
  · exact hlt
  · exact String.lt_trans hlt ((List.pairwise_cons.mp h).1 other hother)

/-- Before the first greater name the search is over. -/
theorem lookupEntry_of_lt_head (h : Ascending (entry :: rest)) (hlt : name < entry.1) :
    lookupEntry name (entry :: rest) = none :=
  lookupEntry_eq_none_of_forall_lt (forall_lt_of_lt_head h hlt)

theorem filter_ne_of_forall_lt (h : ∀ other ∈ entries, name < other.1) :
    entries.filter (·.1 ≠ name) = entries := by
  refine List.filter_eq_self.mpr fun other hother => ?_
  have hne : other.1 ≠ name := fun hsame => String.lt_irrefl _ (hsame ▸ h other hother)
  simpa using hne

theorem entryValue?_eq (h : Ascending entries) :
    entryValue? name entries = lookupEntry name entries := by
  induction entries with
  | nil => rfl
  | cons entry rest ih =>
    rw [entryValue?]
    split
    · rename_i hlt
      rw [lookupEntry_of_lt_head h hlt]
    · rw [lookupEntry, ih (List.pairwise_cons.mp h).2]

theorem putEntry_eq (value : Value) (h : Ascending entries) :
    putEntry name value entries = (lookupEntry name entries, insertEntry name value entries) := by
  induction entries with
  | nil => rfl
  | cons entry rest ih =>
    rw [putEntry, insertEntry]
    split
    · rename_i hlt
      rw [lookupEntry_of_lt_head h hlt]
    · rw [lookupEntry, ih (List.pairwise_cons.mp h).2]
      split <;> rfl

theorem takeEntry_eq (h : Ascending entries) :
    takeEntry name entries = (lookupEntry name entries, entries.filter (·.1 ≠ name)) := by
  induction entries with
  | nil => rfl
  | cons entry rest ih =>
    obtain ⟨hleast, htail⟩ := List.pairwise_cons.mp h
    rw [takeEntry]
    split
    · rename_i hlt
      rw [lookupEntry_of_lt_head h hlt, filter_ne_of_forall_lt (forall_lt_of_lt_head h hlt)]
    · rw [lookupEntry, ih htail]
      split
      · rename_i hsame
        subst hsame
        rw [List.filter_cons_of_neg (by simp), filter_ne_of_forall_lt hleast]
      · rename_i hother
        rw [List.filter_cons_of_pos (by simpa using Ne.symm hother)]

end Rows

/-! ## Runs of calls -/

/-- A call that may change a record. Setting a value is inserting it without asking what
was there before. -/
inductive Call where
  | insert (name : String) (value : Value)
  | set (name : String) (value : Value)
  | remove (name : String)

namespace Call

/-- The name that the call is about. -/
def name : Call → String
  | insert name _ => name
  | set name _ => name
  | remove name => name

/-- What is under the name afterwards. -/
def leaves : Call → Option Value
  | insert _ value => some value
  | set _ value => some value
  | remove _ => none

/-- The answer of the call, if it gives one, where `before` was under its name. -/
def reply (before : Option Value) : Call → Option (Option Value)
  | insert .. => some before
  | set .. => none
  | remove _ => some before

/-- The call on a row of entries: its answer, if it gives one, and the row afterwards. -/
def perform (entries : List (String × Value)) :
    Call → Option (Option Value) × List (String × Value)
  | insert name value => ((some (putEntry name value entries).1), (putEntry name value entries).2)
  | set name value => (none, (putEntry name value entries).2)
  | remove name => (some (takeEntry name entries).1, (takeEntry name entries).2)

end Call

/-- The row of entries after a run of calls. -/
def performAll (entries : List (String × Value)) (calls : List Call) : List (String × Value) :=
  calls.foldl (fun entries call => (call.perform entries).2) entries

/-- The record after a call. -/
def update (record : Record) : Call → Record
  | .insert name value => record.insert name value
  | .set name value => record.insert name value
  | .remove name => record.erase name

def updateAll (record : Record) (calls : List Call) : Record := calls.foldl update record

/-- The last call that names the name, if there is one. -/
def lastNaming? (name : String) (calls : List Call) : Option Call :=
  (calls.filter (·.name = name)).getLast?

/-- **A call on a row in name order** updates the map and answers with what was there. -/
theorem Call.perform_eq (record : Record) (call : Call) :
    call.perform record.entries =
      (call.reply (record.get? call.name), (record.update call).entries) := by
  cases call with
  | insert name value => simp only [perform, putEntry_eq value record.ascending]; rfl
  | set name value => simp only [perform, putEntry_eq value record.ascending]; rfl
  | remove name => simp only [perform, takeEntry_eq record.ascending]; rfl

/-- So the row stays in order, whatever is called. -/
theorem performAll_eq (record : Record) (calls : List Call) :
    performAll record.entries calls = (record.updateAll calls).entries := by
  induction calls generalizing record with
  | nil => rfl
  | cons call calls ih =>
    have hstep : performAll record.entries (call :: calls) =
        performAll (record.update call).entries calls := by
      rw [performAll, List.foldl_cons, call.perform_eq record, performAll]
    rw [hstep, ih, updateAll, updateAll, List.foldl_cons]

theorem get?_update (record : Record) (call : Call) (name : String) :
    (record.update call).get? name =
      if name = call.name then call.leaves else record.get? name := by
  cases call with
  | insert => exact get?_insert ..
  | set => exact get?_insert ..
  | remove => exact get?_erase ..

theorem lastNaming?_cons (name : String) (call : Call) (calls : List Call) :
    lastNaming? name (call :: calls) =
      (lastNaming? name calls).or (if name = call.name then some call else none) := by
  unfold lastNaming?
  by_cases h : name = call.name
  · rw [List.filter_cons_of_pos (by simp [h]), List.getLast?_cons]
    cases (calls.filter (·.name = name)).getLast? <;> simp [h]
  · rw [List.filter_cons_of_neg (by simpa using Ne.symm h), if_neg h, Option.or_none]

/-- **What a run of calls leaves** under a name is what the last call that names it
left. -/
theorem get?_updateAll (record : Record) (calls : List Call) (name : String) :
    (record.updateAll calls).get? name =
      ((lastNaming? name calls).map Call.leaves).getD (record.get? name) := by
  induction calls generalizing record with
  | nil => rfl
  | cons call calls ih =>
    rw [updateAll, List.foldl_cons, ← updateAll, ih, get?_update, lastNaming?_cons]
    cases lastNaming? name calls with
    | some last => rfl
    | none => by_cases h : name = call.name <;> simp [h]

theorem eq_iff_get? {a b : Record} : a = b ↔ ∀ name, a.get? name = b.get? name := by
  refine ⟨?_, ext_get?⟩
  rintro rfl _
  rfl

theorem sameEntries_entries_iff {a b : Record} : sameEntries a.entries b.entries ↔ a = b := by
  rw [sameEntries_iff]
  cases a
  cases b
  rw [mk.injEq]

/-- **Rows are the same** if the same is found under every name. -/
theorem same_iff_agree (a b : Record) :
    sameEntries a.entries b.entries ↔ ∀ name, agree (a.get? name) (b.get? name) := by
  simp only [sameEntries_entries_iff, agree_iff]
  exact eq_iff_get?

theorem entryValue?_performAll (record : Record) (calls : List Call) (name : String) :
    entryValue? name (performAll record.entries calls) = (record.updateAll calls).get? name := by
  rw [performAll_eq]
  exact entryValue?_eq (record.updateAll calls).ascending

theorem pairwise_encode_names (record : Record) :
    record.names.Pairwise fun a b => Utf8.encode a < Utf8.encode b := by
  rw [names, List.pairwise_map]
  exact record.ascending.imp Utf8.encode_lt_of_lt

theorem nodup_names (record : Record) : record.names.Nodup := by
  refine (pairwise_encode_names record).imp ?_
  rintro name _ hlt rfl
  exact List.lt_irrefl _ hlt

/-- **A record is a finite map in name order.** After any run of calls the entries are in
the order of the bytes of their names, and no name comes twice. Under each name there is
what the last call that names it left, or what was there at first. Each call that
answers, answers with what was under its name before it. Two records are the same, entry
by entry and floats by their bits, if the same is found in both under every name. -/
theorem calls_leave_map (start : Record) (calls : List Call) :
    performAll start.entries calls = (start.updateAll calls).entries ∧
      ((performAll start.entries calls).map (·.1)).Pairwise
        (fun a b => Utf8.encode a < Utf8.encode b) ∧
      (start.updateAll calls).names = (performAll start.entries calls).map (·.1) ∧
      (start.updateAll calls).names.Nodup ∧
      (start.updateAll calls).size = (start.updateAll calls).names.length ∧
      (∀ name, entryValue? name (performAll start.entries calls) =
          (start.updateAll calls).get? name ∧
        (start.updateAll calls).get? name =
          ((lastNaming? name calls).map Call.leaves).getD (start.get? name)) ∧
      (∀ call : Call, (call.perform (performAll start.entries calls)).1 =
        call.reply ((start.updateAll calls).get? call.name)) ∧
      ∀ (start' : Record) (calls' : List Call),
        (sameEntries (performAll start.entries calls) (performAll start'.entries calls') ↔
          ∀ name, agree ((start.updateAll calls).get? name)
            ((start'.updateAll calls').get? name)) ∧
        (sameEntries (performAll start.entries calls) (performAll start'.entries calls') ↔
          start.updateAll calls = start'.updateAll calls') := by
  have hnames : (start.updateAll calls).names = (performAll start.entries calls).map (·.1) := by
    rw [performAll_eq]
    rfl
  refine ⟨performAll_eq start calls, ?_, hnames, nodup_names _, ?_, ?_, ?_, ?_⟩
  · rw [← hnames]
    exact pairwise_encode_names _
  · rw [size, names, List.length_map]
  · intro name
    exact ⟨entryValue?_performAll start calls name, get?_updateAll start calls name⟩
  · intro call
    rw [performAll_eq, call.perform_eq]
  · intro start' calls'
    rw [performAll_eq, performAll_eq]
    exact ⟨same_iff_agree .., sameEntries_entries_iff⟩

end Record
end EventWire
