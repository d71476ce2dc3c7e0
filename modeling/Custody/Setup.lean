/-!
# Setting up actors

Every actor takes its messages from a queue that holds at most so many of them; further senders
wait outside. A queue always has room for one message, whatever depth is asked for.
-/

namespace Custody

/-- With one place, a second message waits until the first is taken. -/
def defaultDepth : Nat := 1

def roomFor (depth : Nat) : Nat := max depth 1

structure ClientSetup where
  name : String
  depth : Nat := defaultDepth
  deriving DecidableEq, Repr

structure Setup where
  clients : List ClientSetup := []
  depth : Nat := defaultDepth
  deriving DecidableEq, Repr

end Custody
