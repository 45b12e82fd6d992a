/-
EventWire.Mailbox — messages posted to a receiver that may go away.
-/
namespace EventWire

/-- The messages that a receiver has got, and whether it is still there. -/
structure Mailbox (α : Type) where
  messages : List α := []
  isOpen : Bool := true

namespace Mailbox

variable {α : Type}

/-- The mailbox with one more message; a closed one takes none. -/
def post? (mailbox : Mailbox α) (message : α) : Option (Mailbox α) :=
  if mailbox.isOpen then some { mailbox with messages := mailbox.messages ++ [message] } else none

/-- The mailbox after its receiver has gone. -/
def close (mailbox : Mailbox α) : Mailbox α := { mailbox with isOpen := false }

end Mailbox

end EventWire
