/-
EventWire.Codec.Error — what can go wrong between a record and its bytes.

An error is fatal (`CodecError.isFatal`) when the end of a record cannot be told from the bytes,
so that nothing after it can be read either. All others concern one record.
-/
import EventWire.Event.Error
import EventWire.Field.Error

namespace EventWire

/-- What can go wrong between a record and its bytes. -/
inductive CodecError where
  /-- A value does not suit its field. -/
  | fieldType (event : String) (source : FieldError)
  | missingField (event field : String) (expected : FieldType)
  | fieldTooLarge (event field : String) (size limit : Nat)
  | unknownEvent (name : String)
  /-- No event has the id, so the record's length is unknown. -/
  | unknownPacket (id : UInt32) (offset : Nat)
  | truncated (event : String) (need got : Nat)
  | invalidLength (event : String) (declared : Nat) (reason : String)
  | malformed (event reason : String)
  | invalidUtf8 (event field : String) (validUpTo : Nat)
  | pendingOverflow (pending limit : Nat)
  /-- The text of the error that halted the framing. -/
  | framingHalted (cause : String)
  | sinkClosed (reason : String)
  | schema (source : SchemaError)
deriving DecidableEq

namespace CodecError

/-- The text shown for an error; a refused definition speaks for itself. -/
def message : CodecError → String
  | fieldType event source => s!"Type mismatch in event '{event}': {source.message}"
  | missingField event field expected =>
    s!"Event '{event}' requires field '{field}' ({expected})"
  | fieldTooLarge event field size limit =>
    s!"Field '{field}' in event '{event}' is {size} bytes, limit is {limit}"
  | unknownEvent name => s!"Unknown event '{name}'"
  | unknownPacket id offset =>
    s!"Unknown packet id {id} at stream offset {offset}: record length cannot be determined"
  | truncated event need got =>
    s!"Truncated record for event '{event}': need {need} bytes, got {got}"
  | invalidLength event declared reason =>
    s!"Invalid record length for event '{event}': declared {declared}, {reason}"
  | malformed event reason => s!"Malformed record for event '{event}': {reason}"
  | invalidUtf8 event field validUpTo =>
    s!"Field '{field}' in event '{event}' is not valid UTF-8 at byte {validUpTo}"
  | pendingOverflow pending limit =>
    s!"Pending buffer overflow: {pending} bytes exceeds limit {limit}"
  | framingHalted cause => s!"Framing halted by an earlier error: {cause}"
  | sinkClosed reason => s!"Sink closed: {reason}"
  | schema source => source.message

/-- Whether the stream cannot be read any further. -/
def isFatal : CodecError → Bool
  | unknownPacket .. | invalidLength .. | pendingOverflow .. | framingHalted .. => true
  | _ => false

end CodecError

end EventWire
