import Custody.Cluster.Act

/-!
# Runs

A run of a cluster is a list of acts and moves, in any order in which each is possible. The
cluster is at rest when no move is possible. `settle` lets the actors move until then; every
move lowers the cluster's `load`, so it never has to make more moves than that.
-/

namespace Custody

inductive Label where
  | act (a : Act)
  | move (m : Move)
  deriving DecidableEq, Repr

/-- The sum of a measure over a list. -/
def total {α : Type} (f : α → Nat) : List α → Nat
  | [] => 0
  | a :: rest => f a + total f rest

/-- A job counts three times: for itself, for the request it may become and for the answer. -/
def Member.load (m : Member) : Nat :=
  3 * m.inbox.entries.length + m.work.toList.length + m.running.toNat

namespace Cluster

def step (s : Cluster) : Label → Option (Cluster × List Event)
  | .act a => (s.perform a).map fun t => (t, [])
  | .move m => (s.fire m).map fun (t, e) => (t, [e])

/-- The cluster after a run, and what happened in it. -/
def run (s : Cluster) : List Label → Option (Cluster × List Event)
  | [] => some (s, [])
  | l :: rest => do
    let (t, now) ← s.step l
    let (last, later) ← t.run rest
    return (last, now ++ later)

def Reaches (s t : Cluster) : Prop := ∃ labels events, s.run labels = some (t, events)

/-- Every move that could be possible. -/
def moves (s : Cluster) : List Move :=
  .serve ::
    ((List.range s.members.length).flatMap fun i => [.begin i, .resume i, .leave i]) ++
      (List.range s.calls.length).map .finish ++ [.retire]

def atRest (s : Cluster) : Bool := s.moves.all fun m => (s.fire m).isNone

def load (s : Cluster) : Nat :=
  s.keeper.inbox.entries.length + s.keeper.running.toNat +
    total Member.load s.members + s.calls.countP (·.isPending)

def advance (s : Cluster) : Option Cluster := s.moves.findSome? fun m => (s.fire m).map (·.1)

def settleIn : Nat → Cluster → Cluster
  | 0, s => s
  | n + 1, s => match s.advance with
    | some t => settleIn n t
    | none => s

def settle (s : Cluster) : Cluster := settleIn s.load s

end Cluster

end Custody
