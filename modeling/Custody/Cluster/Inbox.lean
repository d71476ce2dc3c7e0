/-!
# Inboxes

An actor's inbox holds its messages in the order in which they were sent. The first `room` of
them are in the queue; the senders of the others are still waiting outside, and enter in order
as places become free. A sender outside can take its message back, one inside cannot.
-/

namespace Custody

structure Inbox (α : Type) where
  room : Nat
  entries : List α := []
  deriving DecidableEq, Repr

namespace Inbox

variable {α : Type}

def queued (b : Inbox α) : List α := b.entries.take b.room

def blocked (b : Inbox α) : List α := b.entries.drop b.room

def push (b : Inbox α) (a : α) : Inbox α := { b with entries := b.entries ++ [a] }

def withdraw (b : Inbox α) (p : α → Bool) : Inbox α :=
  { b with entries := b.queued ++ b.blocked.filter fun a => !p a }

def clear (b : Inbox α) : Inbox α := { b with entries := [] }

end Inbox

end Custody
