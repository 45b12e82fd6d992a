/-
EventWire.Settings.Environment — settings from environment variables.

A variable that is not set, is not UTF-8 or does not have the form asked for leaves the default in
place.
-/
import EventWire.Settings
import EventWire.Text.Utf8

namespace EventWire.Settings

/-- The values of environment variables, as the bytes that they are. -/
abbrev Environment := String → Option Bytes

/-- `true` or `false`, in just these letters. -/
def parseBool? (s : String) : Option Bool :=
  if s = "true" then some true else if s = "false" then some false else none

/-- The value of one or more digits, from the left. -/
def digitsValue? : List Char → Option Nat
  | [] => none
  | cs =>
    if cs.all Char.isDigit then some (cs.foldl (fun n c => n * 10 + (c.toNat - '0'.toNat)) 0)
    else none

/-- A size of 64 bits in decimal digits, with or without a plus sign before them. -/
def parseSize? (s : String) : Option Nat := do
  let n ← digitsValue? (match s.toList with
    | '+' :: rest => rest
    | cs => cs)
  if n < UInt64.size then some n else none

/-- The parsed value of a variable. -/
def parsed? {α : Type} (env : Environment) (name : String) (parse? : String → Option α) :
    Option α := env name >>= Utf8.decode? >>= parse?

/-- The default settings with what the environment says instead. There is no room for more compact
events than there are compact ids. -/
def ofEnvironment (env : Environment) : Settings :=
  let base : Settings := {}
  { registry :=
      { typecheck := (parsed? env "STRAND_TYPECHECK" parseBool?).getD base.registry.typecheck
        maxCompactEvents :=
          match parsed? env "STRAND_MAX_COMPACT_EVENTS" parseSize? with
          | some limit => min limit compactIdCount
          | none => base.registry.maxCompactEvents }
    framer :=
      { maxPending :=
          match parsed? env "STRAND_MAX_PENDING_BYTES" parseSize? with
          | some limit => some limit
          | none => base.framer.maxPending } }

end EventWire.Settings
