/-
EventWire.Proofs.PlainNames — accepted names, and those of them that are plain.

The patterns of names are spelled in ASCII, and a plain name is one that a peer can
spell in it (`PlainEventName`, `PlainFieldName`). Names are matched without regard to
case, by the case folding of Unicode, and there two signs outside ASCII fold to ASCII
letters. They count as letters wherever a letter does (`isLetter_iff_folds`), in no
pattern and in no place as anything else. So an accepted name is plain exactly if it
has none of the two (`Event.names_plain_iff`).
-/
import EventWire.Proofs.Names
import EventWire.Proofs.RegistrySchema

namespace EventWire.Name

/-- The sign is outside ASCII and folds to an ASCII letter. -/
def Folds (c : Char) : Prop := c = longS ∨ c = kelvinSign

/-- No sign of the name is outside ASCII and folds to an ASCII letter. -/
def Unfolded (name : String) : Prop := ∀ c ∈ name.toList, ¬ Folds c

/-- An event name that is plain ASCII. -/
structure PlainEventName (name : String) : Prop where
  nonempty : name ≠ ""
  signs : ∀ c ∈ name.toList, c.isAlphanum ∨ c = '_' ∨ c = '-'

/-- A field name that is plain ASCII. -/
structure PlainFieldName (name : String) : Prop where
  nonempty : name ≠ ""
  signs : ∀ c ∈ name.toList, c.isAlphanum ∨ c = '_'
  start : ∀ c, name.toList.head? = some c → ¬ c.isDigit

variable {name : String} {c : Char}

theorem isLetter_iff_folds : isLetter c ↔ c.isAlpha ∨ Folds c := by
  simp [isLetter, Folds, or_assoc]

/-- The two signs are letters of their own, and no digits or marks. -/
theorem Folds.not_plain (h : Folds c) : ¬ c.isAlphanum ∧ c ≠ '_' ∧ c ≠ '-' := by
  rcases h with rfl | rfl <;> decide

theorem not_isDigit_of_isAlpha (h : c.isAlpha) : ¬ c.isDigit := by
  have hletter : isLetter c := isLetter_iff_folds.mpr (.inl h)
  rw [isLetter_iff] at hletter
  rw [isDigit_iff]
  omega

theorem toList_eq_nil_iff : name.toList = [] ↔ name = "" := String.toList_eq_nil_iff

/-- **Event names** are of letters, digits and marks, and the two signs. -/
theorem isEventName_iff_signs :
    isEventName name ↔
      name ≠ "" ∧ ∀ c ∈ name.toList, (c.isAlphanum ∨ c = '_' ∨ c = '-') ∨ Folds c := by
  have hsign (c : Char) :
      (isLetter c || c.isDigit || c == '_' || c == '-') = true ↔
        (c.isAlphanum ∨ c = '_' ∨ c = '-') ∨ Folds c := by
    simp only [Bool.or_eq_true, beq_iff_eq, isLetter_iff_folds, Char.isAlphanum, or_assoc,
      or_left_comm, or_comm]
  rw [isEventName, ne_eq, ← toList_eq_nil_iff]
  cases name.toList with
  | nil => simp
  | cons c cs => simp only [List.all_eq_true, hsign, reduceCtorEq, not_false_eq_true, true_and]

/-- **Field names** are of letters, digits and underscores, and the two signs, and do
not begin with a digit. -/
theorem isFieldName_iff_signs :
    isFieldName name ↔
      name ≠ "" ∧ (∀ c ∈ name.toList, (c.isAlphanum ∨ c = '_') ∨ Folds c) ∧
        ∀ c, name.toList.head? = some c → ¬ c.isDigit := by
  have hsign (c : Char) :
      (isLetter c || c.isDigit || c == '_') = true ↔ (c.isAlphanum ∨ c = '_') ∨ Folds c := by
    simp only [Bool.or_eq_true, beq_iff_eq, isLetter_iff_folds, Char.isAlphanum, or_assoc,
      or_left_comm, or_comm]
  have hfirst (c : Char) :
      (isLetter c || c == '_') = true ↔ ((c.isAlphanum ∨ c = '_') ∨ Folds c) ∧ ¬ c.isDigit := by
    have halpha : c.isAlpha → ¬ c.isDigit := not_isDigit_of_isAlpha
    have hfolds : Folds c → ¬ c.isDigit := by
      rintro (rfl | rfl) <;> decide
    have hmark : c = '_' → ¬ c.isDigit := by
      rintro rfl
      decide
    simp only [Bool.or_eq_true, beq_iff_eq, isLetter_iff_folds, Char.isAlphanum]
    constructor
    · rintro ((hc | hc) | hc)
      · exact ⟨.inl (.inl (.inl hc)), halpha hc⟩
      · exact ⟨.inr hc, hfolds hc⟩
      · exact ⟨.inl (.inr hc), hmark hc⟩
    · rintro ⟨((hc | hc) | hc) | hc, hdigit⟩
      · exact .inl (.inl hc)
      · exact absurd hc hdigit
      · exact .inr hc
      · exact .inl (.inr hc)
  rw [isFieldName, ne_eq, ← toList_eq_nil_iff]
  cases name.toList with
  | nil => simp
  | cons c cs =>
    simp only [Bool.and_eq_true, List.all_eq_true, hsign, hfirst, List.head?_cons,
      Option.some.injEq, forall_eq', List.mem_cons, forall_eq_or_imp, reduceCtorEq,
      not_false_eq_true, true_and]
    exact and_right_comm

theorem plainEventName_iff (h : isEventName name) : PlainEventName name ↔ Unfolded name := by
  obtain ⟨hnonempty, hsigns⟩ := isEventName_iff_signs.mp h
  constructor
  · intro hplain c hc hfolds
    obtain ⟨halphanum, hunderscore, hhyphen⟩ := hfolds.not_plain
    rcases hplain.signs c hc with hsign | hsign | hsign
    · exact halphanum hsign
    · exact hunderscore hsign
    · exact hhyphen hsign
  · intro hunfolded
    exact ⟨hnonempty, fun c hc => (hsigns c hc).resolve_right (hunfolded c hc)⟩

theorem plainFieldName_iff (h : isFieldName name) : PlainFieldName name ↔ Unfolded name := by
  obtain ⟨hnonempty, hsigns, hstart⟩ := isFieldName_iff_signs.mp h
  constructor
  · intro hplain c hc hfolds
    obtain ⟨halphanum, hunderscore, -⟩ := hfolds.not_plain
    rcases hplain.signs c hc with hsign | hsign
    · exact halphanum hsign
    · exact hunderscore hsign
  · intro hunfolded
    exact ⟨hnonempty, fun c hc => (hsigns c hc).resolve_right (hunfolded c hc), hstart⟩

end EventWire.Name

namespace EventWire.Event

/-- The names of an event and of its fields are plain ASCII. -/
structure PlainNames (name : String) (fields : List Field) : Prop where
  event : Name.PlainEventName name
  fields : ∀ field ∈ fields, Name.PlainFieldName field.name

theorem names_of_define {id : UInt32} {name : String} {fields : List Field} {event : Event}
    (h : define id name fields = .ok event) :
    Name.isEventName name ∧ ∀ field ∈ fields, Name.isFieldName field.name := by
  obtain ⟨hname, hfields, -, -⟩ := define_eq_ok_iff.mp h
  refine ⟨?_, hfields⟩
  unfold checkName at hname
  split at hname
  · exact nomatch hname
  · rename_i hpattern
    simpa using hpattern

/-- **Accepted names are plain but for two signs.** Whether an event is defined by
itself or in a registry, its name is not empty and of ASCII letters and digits, `_`,
`-` and the two signs; the names of its fields are not empty and of ASCII letters and
digits, `_` and the two signs, and do not begin with a digit. They are plain ASCII
exactly if the two signs are in none of them. -/
theorem names_plain_iff {registry : Registry} {id : UInt32} {name : String} {fields : List Field}
    (h : (define id name fields).isOk ∨ (registry.define id name fields).isOk) :
    (name ≠ "" ∧ ∀ c ∈ name.toList, (c.isAlphanum ∨ c = '_' ∨ c = '-') ∨ Name.Folds c) ∧
      (∀ field ∈ fields, field.name ≠ "" ∧
        (∀ c ∈ field.name.toList, (c.isAlphanum ∨ c = '_') ∨ Name.Folds c) ∧
        ∀ c, field.name.toList.head? = some c → ¬ c.isDigit) ∧
      (PlainNames name fields ↔
        Name.Unfolded name ∧ ∀ field ∈ fields, Name.Unfolded field.name) := by
  have hdefine : ∃ event, define id name fields = .ok event := by
    rcases h with h | h
    · cases hresult : define id name fields with
      | ok event => exact ⟨event, rfl⟩
      | error error => simp [hresult, Except.isOk, Except.toBool] at h
    · cases hresult : registry.define id name fields with
      | ok next =>
        obtain ⟨-, event, hevent, -⟩ := Registry.define_eq_ok_iff.mp hresult
        exact ⟨event, hevent⟩
      | error error => simp [hresult, Except.isOk, Except.toBool] at h
  obtain ⟨event, hevent⟩ := hdefine
  obtain ⟨hname, hfields⟩ := names_of_define hevent
  refine ⟨Name.isEventName_iff_signs.mp hname, ?_, ?_, ?_⟩
  · exact fun field hfield => Name.isFieldName_iff_signs.mp (hfields field hfield)
  · intro hplain
    exact ⟨(Name.plainEventName_iff hname).mp hplain.event, fun field hfield =>
      (Name.plainFieldName_iff (hfields field hfield)).mp (hplain.fields field hfield)⟩
  · rintro ⟨hunfolded, hunfoldedFields⟩
    exact ⟨(Name.plainEventName_iff hname).mpr hunfolded, fun field hfield =>
      (Name.plainFieldName_iff (hfields field hfield)).mpr (hunfoldedFields field hfield)⟩

theorem names_plain_iff_say :
    (define 7 "S-0" [⟨"_at9", .scalar .int16⟩]).isOk ∧
      PlainNames "S-0" [⟨"_at9", .scalar .int16⟩] := by
  have h : (define 7 "S-0" [⟨"_at9", .scalar .int16⟩]).isOk := by cbv
  obtain ⟨-, -, hplain⟩ := @names_plain_iff (.ofSettings {}) _ _ _ (.inl h)
  refine ⟨h, hplain.mpr ?_⟩
  simp [Name.Unfolded, Name.Folds, Name.longS, Name.kelvinSign]

/-- **Names that are not plain are accepted**: the event's begins with the long s, the
field's is the Kelvin sign. -/
theorem long_s_accepted :
    define 7 "\u017fay" [⟨"\u212a", .scalar .int16⟩] =
        .ok ⟨7, "\u017fay", [⟨"\u212a", .scalar .int16⟩]⟩ ∧
      ((Registry.ofSettings {}).define 7 "\u017fay" [⟨"\u212a", .scalar .int16⟩]).isOk ∧
      ¬ Name.PlainEventName "\u017fay" ∧ ¬ Name.PlainFieldName "\u212a" := by
  refine ⟨by cbv, by cbv, ?_, ?_⟩
  · intro hplain
    exact absurd (hplain.signs Name.longS (by decide)) (by decide)
  · intro hplain
    exact absurd (hplain.signs Name.kelvinSign (by decide)) (by decide)

end EventWire.Event
