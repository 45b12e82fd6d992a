/-
EventWire.Text.Utf8 — texts as bytes.

* `Utf8.encode` — the UTF-8 bytes of a text.
* `Utf8.decode?` — the text with the given bytes, where there is one.
* `Utf8.validUpTo` — how many leading bytes are whole, well-formed characters: reading stops
  before the first character that is malformed or cut short.

`Utf8.decode?_eq_some_iff` says that reading accepts exactly what writing produces.
-/
import EventWire.Bytes

namespace EventWire.Utf8

/-- The UTF-8 bytes of a text. -/
def encode (s : String) : Bytes := s.toByteArray.data.toList

/-- The text whose UTF-8 bytes are `bs`. -/
def decode? (bs : Bytes) : Option String := String.fromUTF8? ⟨bs.toArray⟩

/-- The end of the last whole character, read from position `i` on. -/
def charsEnd (bytes : ByteArray) (i : Nat) : Nat :=
  match _h : bytes.utf8DecodeChar? i with
  | none => i
  | some c => charsEnd bytes (i + c.utf8Size)
termination_by bytes.size - i
decreasing_by
  have := ByteArray.le_size_of_utf8DecodeChar?_eq_some _h
  have := c.utf8Size_pos
  omega

/-- The number of bytes before the first character that is malformed or cut short. -/
def validUpTo (bs : Bytes) : Nat := charsEnd ⟨bs.toArray⟩ 0

/-- Reading accepts exactly what writing produces. -/
theorem decode?_eq_some_iff {bs : Bytes} {s : String} : decode? bs = some s ↔ bs = encode s := by
  unfold decode? encode String.fromUTF8?
  constructor
  · intro h
    split at h
    · cases h
      rfl
    · exact nomatch h
  · rintro rfl
    have valid : ByteArray.IsValidUTF8 ⟨s.toByteArray.data.toList.toArray⟩ := s.isValidUTF8
    rw [dif_pos valid]
    rfl

@[simp] theorem decode?_encode (s : String) : decode? (encode s) = some s :=
  decode?_eq_some_iff.2 rfl

theorem encode_injective {s t : String} (h : encode s = encode t) : s = t :=
  Option.some.inj ((decode?_encode s).symm.trans (h ▸ decode?_encode t))

end EventWire.Utf8
