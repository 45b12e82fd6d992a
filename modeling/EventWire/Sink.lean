/-
EventWire.Sink — where encoded records go.

A sink is a machine over states `σ`: it is handed the bytes of one record at a time and may fail.
-/
import EventWire.Bytes
import EventWire.Codec.Error
import EventWire.Mailbox

namespace EventWire

/-- A writer of encoded records, with states `σ`. -/
structure Sink (σ : Type) where
  /-- Writes the bytes of one record, or fails. -/
  write : Bytes → σ → Except CodecError Unit × σ

namespace Sink

/-- All records in one run of bytes. -/
def stream : Sink Bytes where
  write bytes written := (.ok (), written ++ bytes)

/-- One piece for each record. -/
def frames : Sink (List Bytes) where
  write bytes written := (.ok (), written ++ [bytes])

/-- Posts every record, as long as the receiver is there. -/
def mailbox : Sink (Mailbox Bytes) where
  write bytes box :=
    match box.post? bytes with
    | some box => (.ok (), box)
    | none => (.error (.sinkClosed "receiver dropped"), box)

/-- What a sink made of a plain function is shown as. -/
def functionLabel : String := "FnSink"

end Sink

end EventWire
