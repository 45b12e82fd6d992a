/-
EventWire.Proofs.Names — the patterns of names, and the order of names.

Names are checked character by character. The patterns that they are to match are
regular languages of characters taken without regard to case: a character stands
for another if both fold to the same (`Name.fold`). As the patterns list characters
that fold to themselves, what matters of a character is what it folds to
(`Name.mem_anyOf_iff`), and two signs that are no ASCII letters fold to one.

Texts are compared by their code points. UTF-8 has been made so that their bytes
are then in the same order (`Utf8.encode_lt_iff`): the lead byte of a longer
character is greater, and among characters of one length the bits follow from the
most significant on, six at a time.
-/
import EventWire.Event.Name
import EventWire.Proofs.TextPrefix
import Mathlib

/-! ## Patterns -/

namespace EventWire.Name

open scoped Computability

/-- Simple case folding, as far as it leads to ASCII letters. -/
def fold (c : Char) : Char :=
  if c = longS then 's' else if c = kelvinSign then 'k' else c.toLower

def letters : Set Char := Set.Icc 'a' 'z'

def digits : Set Char := Set.Icc '0' '9'

/-- A text of one character, out of some, without regard to case. -/
def anyOf (chars : Set Char) : Language Char :=
  {text | ∃ c d, text = [c] ∧ d ∈ chars ∧ fold c = fold d}

/-- What `[0-9a-z_-]+` matches. -/
def eventPattern : Language Char :=
  anyOf (letters ∪ digits ∪ {'_'} ∪ {'-'}) * (anyOf (letters ∪ digits ∪ {'_'} ∪ {'-'}))∗

/-- What `[a-z_][0-9a-z_]*` matches. -/
def fieldPattern : Language Char :=
  anyOf (letters ∪ {'_'}) * (anyOf (letters ∪ digits ∪ {'_'}))∗

variable {c : Char} {chars first later : Set Char}

theorem char_eq_iff {c d : Char} : c = d ↔ c.toNat = d.toNat := by
  constructor
  · rintro rfl
    rfl
  · intro h
    exact Char.ext (UInt32.toNat_inj.mp h)

theorem toNat_fold (c : Char) :
    (fold c).toNat = if c.toNat = 0x17f then 115 else if c.toNat = 0x212a then 107
      else if 65 ≤ c.toNat ∧ c.toNat ≤ 90 then c.toNat + 32 else c.toNat := by
  have hlong : c = longS ↔ c.toNat = 0x17f := char_eq_iff
  have hkelvin : c = kelvinSign ↔ c.toNat = 0x212a := char_eq_iff
  have hupper : (c.val ≥ 'A'.val ∧ c.val ≤ 'Z'.val) ↔ 65 ≤ c.toNat ∧ c.toNat ≤ 90 := Iff.rfl
  unfold fold Char.toLower
  simp only [hlong, hkelvin, hupper]
  split_ifs with _ _ h
  · rfl
  · rfl
  · have hsum : (c.val + ('a'.val - 'A'.val)).toNat = c.toNat + 32 := by
      rw [UInt32.toNat_add, Nat.mod_eq_of_lt]
      · rfl
      · change c.toNat + 32 < _
        omega
    exact hsum
  · rfl

theorem fold_eq_self (h : c.toNat < 65 ∨ 90 < c.toNat ∧ c.toNat < 0x17f) : fold c = c := by
  rw [char_eq_iff, toNat_fold]
  split_ifs <;> omega

theorem mem_letters_iff : c ∈ letters ↔ 97 ≤ c.toNat ∧ c.toNat ≤ 122 := Iff.rfl

theorem mem_digits_iff : c ∈ digits ↔ 48 ≤ c.toNat ∧ c.toNat ≤ 57 := Iff.rfl

theorem isLetter_iff :
    isLetter c ↔ (65 ≤ c.toNat ∧ c.toNat ≤ 90) ∨ (97 ≤ c.toNat ∧ c.toNat ≤ 122) ∨
      c.toNat = 0x17f ∨ c.toNat = 0x212a := by
  have hupper : c.isUpper ↔ 65 ≤ c.toNat ∧ c.toNat ≤ 90 := by
    simp [Char.isUpper, UInt32.le_iff_toNat_le]
  have hlower : c.isLower ↔ 97 ≤ c.toNat ∧ c.toNat ≤ 122 := by
    simp [Char.isLower, UInt32.le_iff_toNat_le]
  have hlong : c = longS ↔ c.toNat = 0x17f := char_eq_iff
  have hkelvin : c = kelvinSign ↔ c.toNat = 0x212a := char_eq_iff
  simp [isLetter, Char.isAlpha, hupper, hlower, hlong, hkelvin, or_assoc]

theorem isDigit_iff : c.isDigit ↔ 48 ≤ c.toNat ∧ c.toNat ≤ 57 := by
  simp [Char.isDigit, UInt32.le_iff_toNat_le]

/-- Of characters that fold to themselves, one stands for what folds to it. -/
theorem mem_anyOf_iff (h : ∀ d ∈ chars, fold d = d) : [c] ∈ anyOf chars ↔ fold c ∈ chars := by
  constructor
  · rintro ⟨c', d, hc, hd, hfold⟩
    obtain ⟨rfl, -⟩ := List.cons_eq_cons.mp hc
    rwa [hfold, h d hd]
  · intro hmem
    exact ⟨c, fold c, rfl, hmem, (h _ hmem).symm⟩

theorem mem_anyOf_union :
    [c] ∈ anyOf (first ∪ later) ↔ [c] ∈ anyOf first ∨ [c] ∈ anyOf later := by
  constructor
  · rintro ⟨c', d, hc, hd | hd, hfold⟩
    · exact .inl ⟨c', d, hc, hd, hfold⟩
    · exact .inr ⟨c', d, hc, hd, hfold⟩
  · rintro (⟨c', d, hc, hd, hfold⟩ | ⟨c', d, hc, hd, hfold⟩)
    · exact ⟨c', d, hc, .inl hd, hfold⟩
    · exact ⟨c', d, hc, .inr hd, hfold⟩

theorem mem_anyOf_letters : [c] ∈ anyOf letters ↔ isLetter c := by
  have hfolded : ∀ d ∈ letters, fold d = d := by
    intro d hd
    rw [mem_letters_iff] at hd
    exact fold_eq_self (by omega)
  rw [mem_anyOf_iff hfolded, mem_letters_iff, toNat_fold, isLetter_iff]
  split_ifs <;> omega

theorem mem_anyOf_digits : [c] ∈ anyOf digits ↔ c.isDigit := by
  have hfolded : ∀ d ∈ digits, fold d = d := by
    intro d hd
    rw [mem_digits_iff] at hd
    exact fold_eq_self (by omega)
  rw [mem_anyOf_iff hfolded, mem_digits_iff, toNat_fold, isDigit_iff]
  split_ifs <;> omega

/-- What is no letter stands for itself alone. -/
theorem mem_anyOf_singleton {d : Char} (h : d.toNat < 65 ∨ d.toNat = 95) :
    [c] ∈ anyOf {d} ↔ c = d := by
  have hfolded : ∀ e ∈ ({d} : Set Char), fold e = e := by
    rintro e rfl
    exact fold_eq_self (by omega)
  rw [mem_anyOf_iff hfolded, Set.mem_singleton_iff, char_eq_iff, char_eq_iff, toNat_fold]
  split_ifs <;> omega

theorem mem_anyOf_underscore : [c] ∈ anyOf {'_'} ↔ c = '_' :=
  mem_anyOf_singleton (by decide)

theorem mem_anyOf_hyphen : [c] ∈ anyOf {'-'} ↔ c = '-' :=
  mem_anyOf_singleton (by decide)

/-- One character and then any number of others. -/
theorem mem_mul_kstar_iff {text : List Char} :
    text ∈ anyOf first * (anyOf later)∗ ↔
      ∃ c cs, text = c :: cs ∧ [c] ∈ anyOf first ∧ ∀ d ∈ cs, [d] ∈ anyOf later := by
  rw [Language.mem_mul]
  constructor
  · rintro ⟨head, ⟨c, d, rfl, hd⟩, tail, htail, rfl⟩
    obtain ⟨parts, rfl, hparts⟩ := Language.mem_kstar.mp htail
    refine ⟨c, parts.flatten, rfl, ⟨c, d, rfl, hd⟩, ?_⟩
    intro e he
    obtain ⟨part, hpart, hmem⟩ := List.mem_flatten.mp he
    obtain ⟨e', d', rfl, hd'⟩ := hparts part hpart
    obtain rfl := List.mem_singleton.mp hmem
    exact ⟨e, d', rfl, hd'⟩
  · rintro ⟨c, cs, rfl, hc, hcs⟩
    have hparts : cs = (cs.map ([·])).flatten := by
      rw [← List.flatMap_def, List.flatMap_singleton']
    refine ⟨[c], hc, cs, Language.mem_kstar.mpr ⟨_, hparts, ?_⟩, rfl⟩
    intro part hpart
    obtain ⟨d, hd, rfl⟩ := List.mem_map.mp hpart
    exact hcs d hd

/-- **Event names** are the texts of their pattern. -/
theorem isEventName_iff (name : String) : isEventName name ↔ name.toList ∈ eventPattern := by
  rw [eventPattern, mem_mul_kstar_iff, isEventName]
  simp only [mem_anyOf_union, mem_anyOf_letters, mem_anyOf_digits, mem_anyOf_underscore,
    mem_anyOf_hyphen]
  cases name.toList with
  | nil => simp
  | cons c cs => simp

/-- **Field names** are the texts of theirs. -/
theorem isFieldName_iff (name : String) : isFieldName name ↔ name.toList ∈ fieldPattern := by
  rw [fieldPattern, mem_mul_kstar_iff, isFieldName]
  simp only [mem_anyOf_union, mem_anyOf_letters, mem_anyOf_digits, mem_anyOf_underscore]
  cases name.toList with
  | nil => simp
  | cons c cs => simp

end EventWire.Name

/-! ## Order -/

namespace EventWire.Utf8

theorem div_sextets (n : Nat) : n / 4096 = n / 64 / 64 ∧ n / 262144 = n / 64 / 64 / 64 := by
  omega

/-- The bytes of a lesser character are less, whatever follows. -/
theorem utf8EncodeChar_append_lt {c d : Char} (h : c < d) (bs bs' : Bytes) :
    String.utf8EncodeChar c ++ bs < String.utf8EncodeChar d ++ bs' := by
  have hlt : c.val.toNat < d.val.toNat := h
  have hrange : d.val.toNat < 0x110000 := by
    have := d.valid
    simp only [UInt32.isValidChar, Nat.isValidChar] at this
    omega
  simp only [String.utf8EncodeChar, div_sextets]
  generalize c.val.toNat = m at *
  generalize d.val.toNat = n at *
  -- a case for each number of bytes of the one and of the other
  split_ifs
  all_goals
    simp only [List.cons_append, List.nil_append, List.cons_lt_cons_iff, UInt8.lt_iff_toNat_lt,
      ← UInt8.toNat_inj, UInt8.toNat_ofNat', Nat.reducePow]
    try omega

theorem flatMap_utf8EncodeChar_lt {cs ds : List Char} (h : cs < ds) :
    cs.flatMap String.utf8EncodeChar < ds.flatMap String.utf8EncodeChar := by
  induction cs generalizing ds with
  | nil =>
    cases ds with
    | nil => exact absurd h (List.lt_irrefl [])
    | cons d ds =>
      have hpos := d.utf8Size_pos
      rw [← String.length_utf8EncodeChar] at hpos
      cases hbytes : String.utf8EncodeChar d with
      | nil => simp [hbytes] at hpos
      | cons b bs => simp [hbytes]
  | cons c cs ih =>
    cases ds with
    | nil => exact absurd h (List.not_lt_nil _)
    | cons d ds =>
      rw [List.flatMap_cons, List.flatMap_cons]
      rcases List.cons_lt_cons_iff.mp h with hlt | ⟨rfl, hlt⟩
      · exact utf8EncodeChar_append_lt hlt _ _
      · exact List.append_left_lt (ih hlt)

theorem encode_eq_flatMap (s : String) : encode s = s.toList.flatMap String.utf8EncodeChar := by
  rw [← encode_ofList, String.ofList_toList]

theorem encode_lt_of_lt {s t : String} (h : s < t) : encode s < encode t := by
  rw [encode_eq_flatMap, encode_eq_flatMap]
  exact flatMap_utf8EncodeChar_lt (String.lt_iff_toList_lt.mp h)

/-- **Texts are in the order of their bytes.** -/
theorem encode_lt_iff {s t : String} : encode s < encode t ↔ s < t := by
  refine ⟨fun h => ?_, encode_lt_of_lt⟩
  by_contra hnot
  by_cases heq : s = t
  · exact List.lt_irrefl _ (heq ▸ h)
  · have hgt : t < s := by
      refine String.not_le.mp fun hle => heq (String.le_antisymm hle ?_)
      exact String.not_lt.mp hnot
    exact List.lt_asymm h (encode_lt_of_lt hgt)

end EventWire.Utf8
