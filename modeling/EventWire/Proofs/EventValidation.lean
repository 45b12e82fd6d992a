/-
EventWire.Proofs.EventValidation — which definitions of events are accepted, what
is made of them, and what is said of the others.

A definition is in order (`Event.Valid`) or there is something to say against it
(`Event.Refused`), and in each case the answer is known: `define_of_valid`,
`define_of_refused`. As one of the two is the case (`valid_or_refused`), both
characterise the answers.

Repeated names are looked for among neighbours, after the fields have been put in
name order. Then equal names are neighbours, and what comes twice is come by in the
order of names: what is found is the least (`leastRepeated_of_adjacentDuplicate?`).

The fields of an accepted event stand in an order that is strict
(`wireOrdered_staticFirst`), so no other arrangement of them is in this order
(`WireOrdered.eq_of_perm`).
-/
import EventWire.Proofs.Names
import EventWire.Proofs.WireOrder

namespace EventWire.Event

/-! ## Definitions in order and others -/

/-- The name comes more than once. -/
def Repeated (name : String) (fields : List Field) : Prop :=
  1 < (fields.map Field.name).count name

/-- The name comes more than once, and of such names it is the first in the order
of bytes. -/
structure LeastRepeated (name : String) (fields : List Field) : Prop where
  repeated : Repeated name fields
  least : ∀ other, Repeated other fields → other ≠ name →
    Utf8.encode name < Utf8.encode other

/-- The name may be that of an event. -/
structure Named (name : String) : Prop where
  pattern : name.toList ∈ Name.eventPattern
  free : name ∉ Name.reserved

/-- An event can be defined by this name and these fields. -/
structure Valid (name : String) (fields : List Field) : Prop extends Named name where
  fieldNames : ∀ field ∈ fields, field.name.toList ∈ Name.fieldPattern
  distinct : (fields.map Field.name).Nodup

/-- What is said against a definition: something about the event's name, or else
about the first field whose name is no field name, or else about the least name
that is repeated. -/
inductive Refused (name : String) (fields : List Field) : SchemaError → Prop where
  | pattern (h : name.toList ∉ Name.eventPattern) :
    Refused name fields (.invalidName name Name.eventRule)
  | reserved (h : name.toList ∈ Name.eventPattern) (hreserved : name ∈ Name.reserved) :
    Refused name fields (.invalidName name Name.reservedRule)
  | fieldName (h : Named name) {before after : List Field} {field : Field}
    (hfields : fields = before ++ field :: after)
    (hbefore : ∀ earlier ∈ before, earlier.name.toList ∈ Name.fieldPattern)
    (hfield : field.name.toList ∉ Name.fieldPattern) :
    Refused name fields (.invalidField name field.name Name.fieldRule)
  | repeated (h : Named name)
    (hfields : ∀ field ∈ fields, field.name.toList ∈ Name.fieldPattern) {least : String}
    (hleast : LeastRepeated least fields) :
    Refused name fields (.invalidField name least Name.uniqueRule)

/-- Static fields come before dynamic ones, and within each group the names ascend
in the order of bytes. -/
structure WireOrdered (fields : List Field) : Prop where
  groups : fields.Pairwise fun a b => b.type.isStatic → a.type.isStatic
  names : fields.Pairwise fun a b => a.type.isStatic = b.type.isStatic →
    Utf8.encode a.name < Utf8.encode b.name

/-! ## Repeated names -/

variable {id : UInt32} {name : String} {fields fields' : List Field} {error : SchemaError}

theorem nodup_iff_not_repeated :
    (fields.map Field.name).Nodup ↔ ∀ name, ¬ Repeated name fields := by
  simp only [List.nodup_iff_count_le_one, Repeated, Nat.not_lt]

theorem Repeated.mem (h : Repeated name fields) : name ∈ fields.map Field.name :=
  List.count_pos_iff.mp (Nat.lt_of_succ_lt h)

theorem repeated_cons_of_ne {field : Field} (h : field.name ≠ name) :
    Repeated name (field :: fields) ↔ Repeated name fields := by
  rw [Repeated, Repeated, List.map_cons, List.count_cons_of_ne h]

/-- Neither is a name that does not come again repeated, nor does it matter to the
other names. -/
theorem repeated_cons_of_not_mem {field : Field} (h : field.name ∉ fields.map Field.name) :
    Repeated name (field :: fields) ↔ Repeated name fields := by
  by_cases hname : field.name = name
  · subst hname
    rw [Repeated, Repeated, List.map_cons, List.count_cons_self, List.count_eq_zero.mpr h]
    simp
  · exact repeated_cons_of_ne hname

theorem repeated_of_perm (h : fields.Perm fields') :
    Repeated name fields ↔ Repeated name fields' := by
  rw [Repeated, Repeated, (h.map Field.name).count_eq]

theorem leastRepeated_of_perm (h : fields.Perm fields') (hleast : LeastRepeated name fields) :
    LeastRepeated name fields' where
  repeated := (repeated_of_perm h).mp hleast.repeated
  least other hother := hleast.least other ((repeated_of_perm h).mpr hother)

theorem LeastRepeated.eq {other : String} (h : LeastRepeated name fields)
    (hother : LeastRepeated other fields) : name = other := by
  by_contra hne
  exact List.lt_asymm (h.least other hother.repeated (Ne.symm hne))
    (hother.least name h.repeated hne)

/-- In name order, the name that is found to be repeated is the least. -/
theorem leastRepeated_of_adjacentDuplicate?
    (h : fields.Pairwise (fun a b => a.name ≤ b.name))
    (hfound : adjacentDuplicate? fields = some name) : LeastRepeated name fields := by
  fun_induction adjacentDuplicate? fields with
  | case1 a b rest hsame =>
    cases hfound
    constructor
    · simp [Repeated, ← hsame]
    · intro other hother hne
      obtain ⟨field, hfield, rfl⟩ := List.mem_map.mp hother.mem
      have hle : a.name ≤ field.name := by
        rcases List.mem_cons.mp hfield with rfl | hlater
        · exact String.le_refl _
        · exact (List.pairwise_cons.mp h).1 field hlater
      refine Utf8.encode_lt_iff.mpr (String.not_le.mp fun hge => hne ?_)
      exact String.le_antisymm hge hle
  | case2 a b rest hother ih =>
    have hnew := name_not_mem_of_next_ne h hother
    have hrest := ih (List.pairwise_cons.mp h).2 hfound
    constructor
    · exact (repeated_cons_of_not_mem hnew).mpr hrest.repeated
    · intro other hrepeated
      exact hrest.least other ((repeated_cons_of_not_mem hnew).mp hrepeated)
  | case3 => cases hfound

theorem adjacentDuplicate?_sortByName :
    adjacentDuplicate? (sortByName fields) = some name ↔ LeastRepeated name fields := by
  have hsorted := pairwise_sortByName fields
  have hperm := sortByName_perm fields
  constructor
  · intro hfound
    exact leastRepeated_of_perm hperm (leastRepeated_of_adjacentDuplicate? hsorted hfound)
  · intro h
    cases hfound : adjacentDuplicate? (sortByName fields) with
    | none =>
      have hnodup := (adjacentDuplicate?_eq_none_iff hsorted).mp hfound
      exact absurd ((repeated_of_perm hperm).mpr h.repeated) (nodup_iff_not_repeated.mp hnodup name)
    | some found =>
      have hfoundLeast := leastRepeated_of_adjacentDuplicate? hsorted hfound
      rw [(leastRepeated_of_perm hperm hfoundLeast).eq h]

/-! ## Answers -/

theorem checkName_eq_ok_iff : checkName name = .ok () ↔ Named name := by
  unfold checkName
  constructor
  · intro h
    split at h
    · exact nomatch h
    · split at h
      · exact nomatch h
      · rename_i hpattern hfree
        exact ⟨(Name.isEventName_iff name).mp (by simpa using hpattern), hfree⟩
  · rintro ⟨hpattern, hfree⟩
    simp [(Name.isEventName_iff name).mpr hpattern, hfree]

theorem checkFieldNames_of_bad {before after : List Field} {field : Field} (event : String)
    (hbefore : ∀ earlier ∈ before, earlier.name.toList ∈ Name.fieldPattern)
    (hfield : field.name.toList ∉ Name.fieldPattern) :
    checkFieldNames event (before ++ field :: after) =
      .error (.invalidField event field.name Name.fieldRule) := by
  have hfound : (before ++ field :: after).find? (fun field => !Name.isFieldName field.name) =
      some field := by
    refine List.find?_eq_some_iff_append.mpr ⟨?_, before, after, rfl, ?_⟩
    · simpa [← Name.isFieldName_iff] using hfield
    · simpa [Name.isFieldName_iff] using hbefore
  rw [checkFieldNames, hfound]

theorem checkFieldNames_of_named (event : String)
    (h : ∀ field ∈ fields, field.name.toList ∈ Name.fieldPattern) :
    checkFieldNames event fields = .ok () :=
  (checkFieldNames_eq_ok_iff event).mpr fun field hfield =>
    (Name.isFieldName_iff field.name).mpr (h field hfield)

theorem define_of_valid (h : Valid name fields) :
    define id name fields = .ok ⟨id, name, staticFirst (sortByName fields)⟩ := by
  refine define_eq_ok_iff.mpr ⟨checkName_eq_ok_iff.mpr h.toNamed, ?_, h.distinct, rfl⟩
  exact fun field hfield => (Name.isFieldName_iff field.name).mpr (h.fieldNames field hfield)

/-- What there is to say is said. -/
theorem define_of_refused (h : Refused name fields error) :
    define id name fields = .error error := by
  cases h with
  | pattern h =>
    have hcheck : checkName name = .error (.invalidName name Name.eventRule) := by
      simp [checkName, Name.isEventName_iff, h]
    simp [define, hcheck, bind, Except.bind]
  | reserved h hreserved =>
    have hcheck : checkName name = .error (.invalidName name Name.reservedRule) := by
      simp [checkName, Name.isEventName_iff, h, hreserved]
    simp [define, hcheck, bind, Except.bind]
  | fieldName h hfields hbefore hfield =>
    simp [define, checkName_eq_ok_iff.mpr h, hfields, checkFieldNames_of_bad name hbefore hfield,
      bind, Except.bind]
  | repeated h hfields hleast =>
    simp [define, checkName_eq_ok_iff.mpr h, checkFieldNames_of_named name hfields,
      adjacentDuplicate?_sortByName.mpr hleast, bind, Except.bind]

theorem valid_or_refused (name : String) (fields : List Field) :
    Valid name fields ∨ ∃ error, Refused name fields error := by
  by_cases hpattern : name.toList ∈ Name.eventPattern
  swap
  · exact .inr ⟨_, .pattern hpattern⟩
  by_cases hreserved : name ∈ Name.reserved
  · exact .inr ⟨_, .reserved hpattern hreserved⟩
  have hnamed : Named name := ⟨hpattern, hreserved⟩
  cases hbad : fields.find? (fun field => !Name.isFieldName field.name) with
  | some field =>
    obtain ⟨hfield, before, after, hfields, hbefore⟩ := List.find?_eq_some_iff_append.mp hbad
    refine .inr ⟨_, .fieldName hnamed hfields ?_ ?_⟩
    · simpa [Name.isFieldName_iff] using hbefore
    · simpa [← Name.isFieldName_iff] using hfield
  | none =>
    have hfields : ∀ field ∈ fields, field.name.toList ∈ Name.fieldPattern := by
      simpa [Name.isFieldName_iff] using hbad
    cases hrepeated : adjacentDuplicate? (sortByName fields) with
    | some least =>
      exact .inr ⟨_, .repeated hnamed hfields (adjacentDuplicate?_sortByName.mp hrepeated)⟩
    | none =>
      have hnodup := (adjacentDuplicate?_eq_none_iff (pairwise_sortByName fields)).mp hrepeated
      exact .inl ⟨hnamed, hfields,
        ((sortByName_perm fields).map Field.name).nodup_iff.mp hnodup⟩

/-! ## Wire order -/

theorem pairwise_lt_sortByName (h : (fields.map Field.name).Nodup) :
    (sortByName fields).Pairwise (fun a b => a.name < b.name) := by
  have hnodup : ((sortByName fields).map Field.name).Nodup :=
    ((sortByName_perm fields).map Field.name).nodup_iff.mpr h
  refine (pairwise_sortByName fields).imp₂ ?_ (List.pairwise_map.mp hnodup)
  intro a b hle hne
  exact String.not_le.mp fun hge => hne (String.le_antisymm hle hge)

/-- Parted into groups, fields in name order are in wire order. -/
theorem wireOrdered_staticFirst (h : fields.Pairwise (fun a b => a.name < b.name)) :
    WireOrdered (staticFirst fields) := by
  have hbytes : fields.Pairwise fun a b => a.type.isStatic = b.type.isStatic →
      Utf8.encode a.name < Utf8.encode b.name := by
    refine h.imp ?_
    intro a b hlt _
    exact Utf8.encode_lt_of_lt hlt
  have hstatic {field : Field} (hmem : field ∈ fields.filter (·.type.isStatic)) :
      field.type.isStatic = true := (List.mem_filter.mp hmem).2
  have hdynamic {field : Field} (hmem : field ∈ fields.filter (·.type.isDynamic)) :
      field.type.isStatic = false := by
    simpa [FieldType.isDynamic] using (List.mem_filter.mp hmem).2
  constructor
  · refine List.pairwise_append.mpr ⟨?_, ?_, ?_⟩
    · exact List.pairwise_of_forall_mem_list fun a ha b hb _ => hstatic ha
    · refine List.pairwise_of_forall_mem_list ?_
      intro a ha b hb hgroup
      exact absurd hgroup (by simp [hdynamic hb])
    · exact fun a ha b hb _ => hstatic ha
  · refine List.pairwise_append.mpr ⟨hbytes.filter _, hbytes.filter _, ?_⟩
    intro a ha b hb hgroup
    rw [hstatic ha, hdynamic hb] at hgroup
    exact nomatch hgroup

theorem wireOrdered_of_define {event : Event} (h : define id name fields = .ok event) :
    WireOrdered event.fields := by
  obtain ⟨-, -, hnodup, rfl⟩ := define_eq_ok_iff.mp h
  exact wireOrdered_staticFirst (pairwise_lt_sortByName hnodup)

/-- Fields have one wire order. -/
theorem WireOrdered.eq_of_perm (h : WireOrdered fields) (h' : WireOrdered fields')
    (hperm : fields.Perm fields') : fields = fields' := by
  refine List.Perm.eq_of_pairwise ?_ (h.groups.and h.names) (h'.groups.and h'.names) hperm
  rintro a b - - ⟨hgroup, hname⟩ ⟨hgroup', hname'⟩
  have hsame : a.type.isStatic = b.type.isStatic := Bool.eq_iff_iff.mpr ⟨hgroup', hgroup⟩
  exact absurd (hname' hsame.symm) (List.lt_asymm (hname hsame))

/-- **Definitions of events.** A definition is accepted if and only if the event's
name is of its pattern and not reserved, the fields' names are of theirs, and no
two of these are the same. The event then has the fields in wire order, which is
the only arrangement of them that is in this order; so however the fields are
rearranged, the definition gives the same event. Otherwise what is refused is the
name of the event, or else the first bad name of a field, or else the least
repeated one. -/
theorem define_validates (id : UInt32) (name : String) (fields : List Field) :
    ((∃ event, define id name fields = .ok event) ↔ Valid name fields) ∧
      (∀ event, define id name fields = .ok event →
        event.id = id ∧ event.name = name ∧ event.fields.Perm fields ∧
        WireOrdered event.fields ∧
        (∀ other, other.Perm fields → WireOrdered other → other = event.fields) ∧
        ∀ fields', fields'.Perm fields → define id name fields' = .ok event) ∧
      ∀ error, define id name fields = .error error ↔ Refused name fields error := by
  refine ⟨⟨?_, fun h => ⟨_, define_of_valid h⟩⟩, ?_, fun error => ⟨?_, define_of_refused⟩⟩
  · rintro ⟨event, hdefine⟩
    rcases valid_or_refused name fields with hvalid | ⟨error, hrefused⟩
    · exact hvalid
    · rw [define_of_refused hrefused] at hdefine
      exact nomatch hdefine
  · intro event hdefine
    obtain ⟨hid, hname⟩ := id_name_of_define hdefine
    have hperm := fields_perm_of_define hdefine
    obtain ⟨-, -, hnodup, rfl⟩ := define_eq_ok_iff.mp hdefine
    have hordered := wireOrdered_staticFirst (pairwise_lt_sortByName hnodup)
    refine ⟨hid, hname, hperm, hordered, ?_, ?_⟩
    · intro other hother hotherOrdered
      exact hotherOrdered.eq_of_perm hordered (hother.trans hperm.symm)
    · intro fields' hfields'
      exact define_of_perm hdefine hfields'.symm
  · intro hdefine
    rcases valid_or_refused name fields with hvalid | ⟨error', hrefused⟩
    · rw [define_of_valid hvalid] at hdefine
      exact nomatch hdefine
    · rw [define_of_refused hrefused] at hdefine
      cases hdefine
      exact hrefused

/-- Of two names that are repeated the lesser is refused, though its fields come
later and are of different groups. -/
example : define 1 "note" [⟨"b", .blob .string⟩, ⟨"a", .scalar .byte⟩, ⟨"b", .blob .string⟩,
    ⟨"a", .blob .bytes⟩] = .error (.invalidField "note" "a" Name.uniqueRule) := by cbv

end EventWire.Event
