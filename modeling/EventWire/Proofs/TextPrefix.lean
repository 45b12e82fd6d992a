/-
EventWire.Proofs.TextPrefix — how far bytes are a text.

A reader of UTF-8 stops before the first character that is malformed or cut
short. What it has passed by then is the longest part, from the beginning,
that is a text (`isGreatest_validUpTo`). Two things make this so: a text is
one character after another (`isText_iff_nil_or_char`), and the bytes at a
place are those of at most one character (`utf8DecodeChar?_eq_some_iff`). So
the reader and any text that lies ahead pass through the same characters.
-/
import EventWire.Text.Utf8
import Mathlib.Order.Bounds.Defs
import Mathlib.Order.Basic

namespace EventWire.Utf8

/-- Some bytes are the UTF-8 of a text. -/
def IsText (bs : Bytes) : Prop := ∃ s, bs = encode s

theorem isSome_decode?_iff {bs : Bytes} : (decode? bs).isSome ↔ IsText bs := by
  simp only [Option.isSome_iff_exists, decode?_eq_some_iff, IsText]

theorem encode_ofList (cs : List Char) :
    encode (String.ofList cs) = cs.flatMap String.utf8EncodeChar := by
  simp [encode, List.utf8Encode]

/-- A text is one character after another. -/
theorem isText_iff {bs : Bytes} :
    IsText bs ↔ ∃ cs : List Char, bs = cs.flatMap String.utf8EncodeChar := by
  constructor
  · rintro ⟨s, rfl⟩
    exact ⟨s.toList, by rw [← encode_ofList, String.ofList_toList]⟩
  · rintro ⟨cs, rfl⟩
    exact ⟨String.ofList cs, (encode_ofList cs).symm⟩

theorem extract_eq_drop (bs : Bytes) (i : Nat) :
    ByteArray.extract ⟨bs.toArray⟩ i (ByteArray.size ⟨bs.toArray⟩) = (bs.drop i).toByteArray := by
  apply ByteArray.ext
  apply Array.toList_inj.mp
  simp [ByteArray.size, List.take_of_length_le]

/-- Reading finds a character where its bytes are. -/
theorem utf8DecodeChar?_eq_some_iff {bs : Bytes} {i : Nat} {c : Char} :
    ByteArray.utf8DecodeChar? ⟨bs.toArray⟩ i = some c ↔
      ∃ rest, bs.drop i = String.utf8EncodeChar c ++ rest := by
  rw [ByteArray.utf8DecodeChar?_eq_utf8DecodeChar?_extract, extract_eq_drop]
  constructor
  · intro h
    obtain ⟨rest, hrest⟩ := ByteArray.exists_of_utf8DecodeChar?_eq_some h
    refine ⟨rest.data.toList, ?_⟩
    have := congrArg (fun b => b.data.toList) hrest
    simpa using this
  · rintro ⟨rest, hrest⟩
    rw [hrest, List.toByteArray_append]
    exact ByteArray.utf8DecodeChar?_utf8EncodeChar_append

/-- A text is empty or begins with a character. -/
theorem isText_iff_nil_or_char {bs : Bytes} :
    IsText bs ↔ bs = [] ∨ ∃ c rest, bs = String.utf8EncodeChar c ++ rest ∧ IsText rest := by
  simp only [isText_iff]
  constructor
  · rintro ⟨cs, rfl⟩
    cases cs with
    | nil => exact .inl rfl
    | cons c cs => exact .inr ⟨c, _, rfl, cs, rfl⟩
  · rintro (rfl | ⟨c, _, rfl, cs, rfl⟩)
    · exact ⟨[], rfl⟩
    · exact ⟨c :: cs, rfl⟩

/-- Reading from some place on ends behind a text that lies there, and no
text that lies there is longer. -/
theorem charsEnd_longest (bs : Bytes) (i : Nat) :
    ∃ text later, bs.drop i = text ++ later ∧ IsText text ∧
      charsEnd ⟨bs.toArray⟩ i = i + text.length ∧
      ∀ other more, bs.drop i = other ++ more → IsText other → other.length ≤ text.length := by
  fun_induction charsEnd ⟨bs.toArray⟩ i with
  | case1 i hnone =>
    refine ⟨[], bs.drop i, rfl, isText_iff_nil_or_char.mpr (.inl rfl), rfl, ?_⟩
    intro other more hsplit htext
    rcases isText_iff_nil_or_char.mp htext with rfl | ⟨c, rest, rfl, -⟩
    · exact Nat.le_refl 0
    · rw [List.append_assoc] at hsplit
      rw [utf8DecodeChar?_eq_some_iff.mpr ⟨_, hsplit⟩] at hnone
      exact nomatch hnone
  | case2 i c hsome ih =>
    obtain ⟨rest, hrest⟩ := utf8DecodeChar?_eq_some_iff.mp hsome
    have hnext : bs.drop (i + c.utf8Size) = rest := by
      rw [← List.drop_drop, hrest, List.drop_left' (String.length_utf8EncodeChar c)]
    rw [hnext] at ih
    obtain ⟨text, later, rfl, htext, hend, hlongest⟩ := ih
    refine ⟨String.utf8EncodeChar c ++ text, later, by rw [hrest, List.append_assoc],
      isText_iff_nil_or_char.mpr (.inr ⟨c, text, rfl, htext⟩), ?_, ?_⟩
    · rw [hend, List.length_append, String.length_utf8EncodeChar, Nat.add_assoc]
    · intro other more hsplit hother
      rcases isText_iff_nil_or_char.mp hother with rfl | ⟨d, rest, rfl, hlater⟩
      · exact Nat.zero_le _
      · -- both texts begin with the character that was read
        rw [List.append_assoc] at hsplit
        have hread := utf8DecodeChar?_eq_some_iff.mpr ⟨_, hsplit⟩
        obtain rfl : c = d := Option.some.inj (hsome.symm.trans hread)
        have hrest' := List.append_cancel_left (hrest.symm.trans hsplit)
        have := hlongest rest more hrest' hlater
        simp only [List.length_append]
        omega

/-- **How far bytes are a text**: `validUpTo` is the greatest number of leading
bytes that are one. -/
theorem isGreatest_validUpTo (bs : Bytes) :
    IsGreatest {n | n ≤ bs.length ∧ IsText (bs.take n)} (validUpTo bs) := by
  obtain ⟨text, later, hsplit, htext, hend, hlongest⟩ := charsEnd_longest bs 0
  rw [List.drop_zero] at hsplit hlongest
  rw [Nat.zero_add] at hend
  rw [validUpTo, hend]
  refine ⟨⟨?_, ?_⟩, ?_⟩
  · rw [hsplit, List.length_append]
    omega
  · rw [hsplit, List.take_left]
    exact htext
  · rintro n ⟨hn, hother⟩
    have := hlongest _ _ (List.take_append_drop n bs).symm hother
    rwa [List.length_take, Nat.min_eq_left hn] at this

end EventWire.Utf8
