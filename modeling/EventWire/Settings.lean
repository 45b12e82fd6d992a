/-
EventWire.Settings — what may be chosen about registries and framers, and three ready choices.
-/
namespace EventWire

/-- The number of ids that fit a one-byte header. -/
def compactIdCount : Nat := 255

/-- How a registry takes events and values. -/
structure RegistrySettings where
  /-- Whether a value must have exactly its field's type. -/
  typecheck : Bool := true
  /-- How many events with a one-byte header there may be. -/
  maxCompactEvents : Nat := compactIdCount
deriving DecidableEq

/-- How a framer waits for the rest of a record. -/
structure FramerSettings where
  /-- How many bytes may be waiting; without a limit, the lengths that a peer declares are
  trusted. -/
  maxPending : Option Nat := none
deriving DecidableEq

/-- The settings of a registry and of the framers that read with it. -/
structure Settings where
  registry : RegistrySettings := {}
  framer : FramerSettings := {}
deriving DecidableEq

namespace Settings

/-- Types are checked, and at most 16 MiB may be waiting. -/
def strict : Settings := { framer := { maxPending := some (16 * 1024 * 1024) } }

/-- Values are converted to the type of their field. -/
def permissive : Settings := { registry := { typecheck := false } }

end Settings

end EventWire
