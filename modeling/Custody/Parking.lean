import Custody.Failure
import Custody.Store.Snapshot

/-!
# Waiting for a reader to park

Whoever wants to know that a reader is parked on a key takes one snapshot after another, with a
pause in between, until the key shows among those waited for. After two seconds the wait is
given up, but only after one more look; a snapshot that cannot be had ends it too.
-/

namespace Custody.Parking

/-- In milliseconds, as all times here. -/
def patience : Nat := 2000

def pause : Nat := 1

/-- One look at the store, and the time after it. -/
structure Look where
  sight : Sight
  time : Nat
  deriving DecidableEq, Repr

inductive Result where
  | parked
  | failed (f : Fault)
  deriving DecidableEq, Repr

/-- What one look decides for a wait that began at `start`; nothing if it goes on. -/
def judge (k : Key) (start : Nat) (look : Look) : Option Result :=
  match look.sight with
  | .failed f => some (.failed f)
  | .shown s =>
    if k ∈ s.waiting then some .parked
    else if start + patience ≤ look.time then some (.failed (.parkTimedOut k))
    else none

/-- What a wait that began at `start` comes to, look by look; nothing if it is not over yet. -/
def watch (k : Key) (start : Nat) (looks : List Look) : Option Result :=
  looks.findSome? (judge k start)

/-- The looks at a store that shows the same each time. -/
def steadily (sight : Sight) (start : Nat) : List Look :=
  (List.range (patience / pause + 1)).map fun n => ⟨sight, start + n * pause⟩

end Custody.Parking
