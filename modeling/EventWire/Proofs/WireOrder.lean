/-
EventWire.Proofs.WireOrder — what a checked definition makes of its fields.

The fields of a definition are a set: they come in any order and are put
into wire order. `define_eq_ok_iff` says when a definition is accepted and
what event it gives; `define_of_perm` says that the order in which the
fields were given leaves no trace in it. The latter is what lets two peers
agree on the wire without agreeing on how they wrote their schema down.

Names order the fields completely once no name comes twice, so the sorted
list is determined by the set (`sortByName_of_perm`).
-/
import EventWire.Event
import Mathlib.Data.List.Nodup

namespace EventWire.Event

/-! ## Fields in name order -/

theorem pairwise_sortByName (fields : List Field) :
    (sortByName fields).Pairwise (fun a b => a.name ≤ b.name) := by
  have htrans (a b c : Field) :
      decide (a.name ≤ b.name) → decide (b.name ≤ c.name) → decide (a.name ≤ c.name) := by
    simpa using String.le_trans
  have htotal (a b : Field) : decide (a.name ≤ b.name) || decide (b.name ≤ a.name) := by
    simpa using String.le_total a.name b.name
  simpa [sortByName] using List.pairwise_mergeSort htrans htotal fields

theorem sortByName_perm (fields : List Field) : (sortByName fields).Perm fields :=
  List.mergeSort_perm fields _

/-- In name order, a name that the next field does not have does not come again. -/
theorem name_not_mem_of_next_ne {a b : Field} {rest : List Field}
    (h : (a :: b :: rest).Pairwise (fun a b => a.name ≤ b.name)) (hother : a.name ≠ b.name) :
    a.name ∉ (b :: rest).map Field.name := by
  have htail := List.pairwise_cons.mp h
  have hfirst := (List.pairwise_cons.mp htail.2).1
  intro hmem
  obtain ⟨field, hfield, hname⟩ := List.mem_map.mp hmem
  have hle : a.name ≤ b.name := htail.1 b List.mem_cons_self
  rcases List.mem_cons.mp hfield with rfl | hlater
  · exact hother hname.symm
  · -- the next name is the least of those that follow, and it is another one
    have hge : b.name ≤ a.name := hname ▸ hfirst field hlater
    exact hother (String.le_antisymm hle hge)

/-- In name order, a name that comes twice comes twice in a row. -/
theorem adjacentDuplicate?_eq_none_iff {fields : List Field}
    (h : fields.Pairwise (fun a b => a.name ≤ b.name)) :
    adjacentDuplicate? fields = none ↔ (fields.map Field.name).Nodup := by
  fun_induction adjacentDuplicate? fields with
  | case1 a b rest hsame => simp [hsame]
  | case2 a b rest hother ih =>
    have hnew := name_not_mem_of_next_ne h hother
    rw [ih (List.pairwise_cons.mp h).2, List.map_cons (l := b :: rest), List.nodup_cons]
    exact (and_iff_right hnew).symm
  | case3 fields hshort =>
    match fields, hshort with
    | [], _ => simp
    | [field], _ => simp
    | a :: b :: rest, hshort => exact absurd rfl (hshort a b rest)

/-- Fields of distinct names have one name order. -/
theorem sortByName_of_perm {fields fields' : List Field} (h : fields.Perm fields')
    (hnodup : (fields.map Field.name).Nodup) : sortByName fields = sortByName fields' := by
  have hperm : (sortByName fields).Perm (sortByName fields') :=
    (sortByName_perm fields).trans (h.trans (sortByName_perm fields').symm)
  refine hperm.eq_of_pairwise ?_ (pairwise_sortByName fields) (pairwise_sortByName fields')
  intro a b ha hb hab hba
  have ha' : a ∈ fields := (sortByName_perm fields).mem_iff.mp ha
  have hb' : b ∈ fields := h.mem_iff.mpr ((sortByName_perm fields').mem_iff.mp hb)
  exact List.inj_on_of_nodup_map hnodup ha' hb' (String.le_antisymm hab hba)

theorem staticFirst_perm (fields : List Field) : (staticFirst fields).Perm fields :=
  List.filter_append_perm _ fields

/-! ## Accepted definitions -/

theorem checkFieldNames_eq_ok_iff (event : String) {fields : List Field} :
    checkFieldNames event fields = .ok () ↔ ∀ field ∈ fields, Name.isFieldName field.name := by
  unfold checkFieldNames
  split
  · rename_i field hfound
    have hbad := List.find?_some hfound
    simp only [reduceCtorEq, false_iff]
    intro hall
    simp [hall field (List.mem_of_find?_eq_some hfound)] at hbad
  · rename_i hnone
    simpa using List.find?_eq_none.mp hnone

/-- **Accepted definitions.** A definition is accepted when its name and
those of its fields are in order and no field's name comes twice; the event
has the fields in wire order. -/
theorem define_eq_ok_iff {id : UInt32} {name : String} {fields : List Field} {event : Event} :
    define id name fields = .ok event ↔
      checkName name = .ok () ∧ (∀ field ∈ fields, Name.isFieldName field.name) ∧
        (fields.map Field.name).Nodup ∧ event = ⟨id, name, staticFirst (sortByName fields)⟩ := by
  have hsorted : adjacentDuplicate? (sortByName fields) = none ↔ (fields.map Field.name).Nodup :=
    (adjacentDuplicate?_eq_none_iff (pairwise_sortByName fields)).trans
      ((sortByName_perm fields).map Field.name).nodup_iff
  rw [← checkFieldNames_eq_ok_iff name, ← hsorted]
  unfold define
  cases checkName name with
  | error error => simp [bind, Except.bind]
  | ok =>
    cases checkFieldNames name fields with
    | error error => simp [bind, Except.bind]
    | ok =>
      cases hrepeated : adjacentDuplicate? (sortByName fields) with
      | some field => simp [bind, Except.bind, hrepeated]
      | none => simp [bind, Except.bind, hrepeated, eq_comm]

/-- The order in which fields are given leaves no trace. -/
theorem define_of_perm {id : UInt32} {name : String} {fields fields' : List Field} {event : Event}
    (h : define id name fields = .ok event) (hperm : fields.Perm fields') :
    define id name fields' = .ok event := by
  obtain ⟨hname, hnames, hnodup, rfl⟩ := define_eq_ok_iff.mp h
  refine define_eq_ok_iff.mpr ⟨hname, ?_, (hperm.map Field.name).nodup_iff.mp hnodup, ?_⟩
  · intro field hfield
    exact hnames field (hperm.mem_iff.mpr hfield)
  · rw [sortByName_of_perm hperm hnodup]

theorem fields_perm_of_define {id : UInt32} {name : String} {fields : List Field} {event : Event}
    (h : define id name fields = .ok event) : event.fields.Perm fields := by
  obtain ⟨-, -, -, rfl⟩ := define_eq_ok_iff.mp h
  exact (staticFirst_perm _).trans (sortByName_perm fields)

theorem nodup_names_of_define {id : UInt32} {name : String} {fields : List Field} {event : Event}
    (h : define id name fields = .ok event) : (event.fields.map Field.name).Nodup := by
  have hnodup := (define_eq_ok_iff.mp h).2.2.1
  exact ((fields_perm_of_define h).map Field.name).nodup_iff.mpr hnodup

theorem id_name_of_define {id : UInt32} {name : String} {fields : List Field} {event : Event}
    (h : define id name fields = .ok event) : event.id = id ∧ event.name = name := by
  obtain ⟨-, -, -, rfl⟩ := define_eq_ok_iff.mp h
  exact ⟨rfl, rfl⟩

end EventWire.Event
