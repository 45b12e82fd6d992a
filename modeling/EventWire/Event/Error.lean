/-
EventWire.Event.Error — why a definition of an event is refused.
-/
namespace EventWire

/-- Why a definition of an event is refused. -/
inductive SchemaError where
  | duplicateId (id : UInt32) (existing : String)
  | duplicateName (name : String) (existingId : UInt32)
  | invalidName (name reason : String)
  | invalidField (event field reason : String)
  /-- No room among the events with a one-byte header. -/
  | tooManyEvents (limit : Nat)
  /-- Codecs are already in use. -/
  | frozen (name : String)
deriving DecidableEq

/-- The text shown for an error. -/
def SchemaError.message : SchemaError → String
  | duplicateId id existing => s!"Event id {id} is already defined as '{existing}'"
  | duplicateName name existingId =>
    s!"Event name '{name}' is already defined with id {existingId}"
  | invalidName name reason => s!"Invalid event name '{name}': {reason}"
  | invalidField event field reason => s!"Invalid field '{field}' in event '{event}': {reason}"
  | tooManyEvents limit =>
    s!"Too many compact events: limit is {limit} (use an id >= 255 for extended events)"
  | frozen name =>
    s!"Registry is frozen: cannot define '{name}' after codecs have been compiled"

end EventWire
