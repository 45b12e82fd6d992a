/-
EventWire.Event.Name — the names that events and fields may have.

Letters are taken without regard to case, by the simple case folding of Unicode: two signs outside
ASCII fold to an ASCII letter and so count as letters too.
-/
namespace EventWire.Name

/-- The long s, which folds to `s`. -/
def longS : Char := '\u017f'

/-- The Kelvin sign, which folds to `k`. -/
def kelvinSign : Char := '\u212a'

/-- The characters that fold to a letter from `a` to `z`. -/
def isLetter (c : Char) : Bool := c.isAlpha || c == longS || c == kelvinSign

/-- One or more letters, digits, underscores and hyphens. -/
def isEventName (name : String) : Bool :=
  match name.toList with
  | [] => false
  | cs => cs.all fun c => isLetter c || c.isDigit || c == '_' || c == '-'

/-- A letter or underscore, then letters, digits and underscores. -/
def isFieldName (name : String) : Bool :=
  match name.toList with
  | [] => false
  | c :: cs =>
    (isLetter c || c == '_') && cs.all fun c => isLetter c || c.isDigit || c == '_'

/-- Names that a transport uses for signals of its own. -/
def reserved : List String := ["close", "data", "drain", "end", "error", "pipe", "newListener"]

/-- Why an event name outside the pattern is refused. -/
def eventRule : String := "must match [0-9a-z_-]+"

/-- Why a reserved event name is refused. -/
def reservedRule : String := "reserved for channel control"

/-- Why a field name outside the pattern is refused. -/
def fieldRule : String := "must match [a-z_][0-9a-z_]*"

/-- Why a field name that comes twice is refused. -/
def uniqueRule : String := "defined more than once"

end EventWire.Name
