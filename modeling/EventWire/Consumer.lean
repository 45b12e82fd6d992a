/-
EventWire.Consumer — where records from a stream go.

A consumer is a machine over states `σ`: it is handed records one at a time and may refuse one, and
it is told of records that could not be decoded. A refusal comes with a next state as well, since
a consumer may remember that it refused.
-/
import EventWire.Codec.Error
import EventWire.Mailbox
import EventWire.Record

namespace EventWire

/-- A receiver of records, with states `σ`. -/
structure Consumer (σ : Type) where
  /-- Takes a record of the named event, or refuses it. -/
  consume : String → Record → σ → Except CodecError Unit × σ
  /-- Is told why a record could not be decoded. -/
  reject : CodecError → σ → σ := fun _ state => state

namespace Consumer

/-- Takes every record and keeps it with the name of its event. -/
def collector : Consumer (List (String × Record)) where
  consume event record taken := (.ok (), taken ++ [(event, record)])

/-- Posts every record with the name of its event, as long as the receiver is there. -/
def mailbox : Consumer (Mailbox (String × Record)) where
  consume event record box :=
    match box.post? (event, record) with
    | some box => (.ok (), box)
    | none => (.error (.sinkClosed "record receiver dropped"), box)

/-- What a consumer made of a plain function is shown as. -/
def functionLabel : String := "FnConsumer"

end Consumer

end EventWire
