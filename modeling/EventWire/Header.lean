/-
EventWire.Header — the id at the start of a record.

Compact ids are one byte. Extended ids follow a marker byte, which is no compact id, as four
big-endian bytes. `Header.read?` reads either; it does not ask whether the id belongs in the form
it came in (`Header.isCanonical` does).
-/
import EventWire.Bytes
import EventWire.Event

namespace EventWire

/-- The two spellings of an id. -/
inductive HeaderForm where
  | compact
  | extended
deriving DecidableEq

/-- The byte before an extended id. -/
def extendedMarker : UInt8 := 0xff

namespace HeaderForm

def width : HeaderForm → Nat
  | compact => 1
  | extended => 5

theorem width_pos (form : HeaderForm) : 0 < form.width := by
  cases form <;> decide

/-- The form in which an id is written. -/
def ofId (id : UInt32) : HeaderForm := if maxCompactId < id then extended else compact

/-- The bytes of an id in the given form; the compact form has room for the last byte only. -/
def write (form : HeaderForm) (id : UInt32) : Bytes :=
  match form with
  | compact => [id.toUInt8]
  | extended => extendedMarker :: BigEndian.encode 4 id.toNat

@[simp] theorem length_write (form : HeaderForm) (id : UInt32) :
    (form.write id).length = form.width := by
  cases form <;> simp [write, width]

end HeaderForm

/-- An id and the form it was written in. -/
structure Header where
  id : UInt32
  form : HeaderForm
deriving DecidableEq

namespace Header

/-- Whether the id is written in the form that belongs to it. -/
def isCanonical (header : Header) : Bool := header.form = .ofId header.id

/-- The header at the start of `data`, if all of it is there. -/
def read? (data : Bytes) : Option Header :=
  match data with
  | [] => none
  | first :: rest =>
    if first = extendedMarker then
      if Bytes.reaches rest 4 then some ⟨.ofNat (BigEndian.decode (rest.take 4)), .extended⟩
      else none
    else some ⟨first.toUInt32, .compact⟩

/-- A header that belongs to its id is read back, whatever follows it. -/
theorem read?_write (id : UInt32) (rest : Bytes) :
    read? ((HeaderForm.ofId id).write id ++ rest) = some ⟨id, .ofId id⟩ := by
  unfold HeaderForm.ofId
  split
  · have four : (BigEndian.encode 4 id.toNat).length = 4 := BigEndian.length_encode ..
    have back : BigEndian.decode (BigEndian.encode 4 id.toNat) = id.toNat :=
      BigEndian.decode_encode (show id.toNat < BigEndian.capacity 4 from id.toNat_lt)
    simp [HeaderForm.write, read?, four, back]
  · rename_i compact
    have small : id.toNat < 255 := Nat.lt_succ_of_le (Nat.not_lt.1 compact)
    have noMarker : id.toUInt8 ≠ extendedMarker := by
      intro same
      have := congrArg UInt8.toNat same
      simp [extendedMarker] at this
      omega
    have back : id.toUInt8.toUInt32 = id := by
      apply UInt32.toNat_inj.1
      simp
      omega
    simp [HeaderForm.write, read?, noMarker, back]

end Header

end EventWire
