import Custody.Cluster.Run
import Custody.Parking

/-!
# Sessions

A list of steps carried out on a new cluster, with a report after each. Before a report the
actors move until they are at rest. Calls are named by the place of the step that made them.
-/

namespace Custody

namespace Session

inductive Step where
  | call (t : Target) (k : Key)
  | take (n : Nat)
  | wait (n : Nat)
  | cancel (n : Nat)
  | closeClient (i : Nat)
  | closeStore
  | killClient (i : Nat)
  | killStore
  | waitParked (k : Key)
  | dropSnapshot
  | name (i : Nat)
  | status
  deriving DecidableEq, Repr

inductive Standing where
  | sending
  | waiting
  | held
  deriving DecidableEq, Repr

inductive Finding where
  | reply (r : Option Answer)
  | parking (r : Parking.Result)
  | name (s : String)
  | running (store : Bool) (clients : List Bool)
  deriving DecidableEq, Repr

/-- `store` is missing once the handle on the store has been let go of. -/
structure Report where
  ended : List (Nat × Outcome)
  opened : List (Nat × Standing)
  store : Option Sight
  finding : Option Finding
  deriving DecidableEq, Repr

end Session

/-- `origins` gives, for each call, the place of the step that made it. -/
structure Session where
  cluster : Cluster
  origins : List Nat := []
  deriving DecidableEq

/-- What a caller that has waited tells of its call. One whose call is void broke off and tells
nothing. -/
def Status.tells? : Status → Option Outcome
  | ended .void => none
  | ended o => some o
  | _ => none

namespace Cluster

def tells? (s : Cluster) (id : Nat) : Option Outcome := do (← s.calls[id]?).status.tells?

/-- The calls that are reported; a snapshot's outcome concerns only the one who asked for it. -/
def reported (c : Call) : Bool :=
  match c.target with
  | .snapshot => false
  | _ => true

/-- An attached caller is always waiting, even while its action is outside the queue. A caller whose
call is void is gone, but as it has told nothing it still counts as waiting. -/
def standing (s : Cluster) (id : Nat) (c : Call) : Option Session.Standing :=
  match c.status, c.target with
  | .pending held _, .client i _ (.dispatched _) =>
    if s.isBlocked id i then some .sending
    else if held then some .held
    else some .waiting
  | .pending _ _, _ => some .waiting
  | .ended .void, _ => some .waiting
  | _, _ => none

/-- The caller of a call goes away. If the call is void, it is struck off. -/
def giveUp (s : Cluster) (id : Nat) : Cluster :=
  if s.ended? id = some .void then s.onCall id fun c => { c with status := .cancelled }
  else s.cancel id

/-- What a snapshot of the store would come to, with no other message before it. -/
def sight (s : Cluster) : Sight :=
  if s.keeper.running then .shown s.keeper.store.snapshot else .failed .snapshotNotSent

end Cluster

namespace Session

def start (setup : Setup) : Session := { cluster := .start setup }

/-- The call that step `n` made. -/
def callOf (s : Session) (n : Nat) : Option Nat := s.origins.idxOf? n

/-- What is told in `after` and was not in `before`, by the steps that made the calls. -/
def ended (origins : List Nat) (before after : Cluster) : List (Nat × Outcome) :=
  (origins.zip after.calls).zipIdx.filterMap fun ((n, c), id) =>
    if Cluster.reported c && (before.tells? id).isNone then c.status.tells?.map fun o => (n, o)
    else none

def opened (origins : List Nat) (s : Cluster) : List (Nat × Standing) :=
  (origins.zip s.calls).zipIdx.filterMap fun ((n, c), id) =>
    if Cluster.reported c then (s.standing id c).map fun st => (n, st) else none

/-- What a step does to the cluster before the actors move, and what it finds. -/
def effect (s : Session) : Step → Option (Cluster × Option Finding)
  | .call t k => do return (← s.cluster.call t k, none)
  | .take n => do
    let id ← s.callOf n
    return (← s.cluster.take id, some (.reply (s.cluster.peek id)))
  | .wait n => do return (← s.cluster.wait (← s.callOf n), none)
  | .cancel n =>
    match s.callOf n with
    | some id => some (s.cluster.giveUp id, none)
    | none => some (s.cluster, none)
  | .closeClient i => do return (← s.cluster.closeClient i, none)
  | .closeStore => some (s.cluster.closeStore, none)
  | .killClient i => do return (← s.cluster.killClient i, none)
  | .killStore => some (s.cluster.killStore, none)
  | .waitParked k =>
    if s.cluster.keeper.handle then do
      let r ← Parking.watch k 0 (Parking.steadily s.cluster.sight 0)
      return (s.cluster, some (.parking r))
    else none
  | .dropSnapshot => do
    let asked ← s.cluster.call .snapshot ""
    return (asked.cancel s.cluster.calls.length, none)
  | .name i => do
    let m ← s.cluster.members[i]?
    if m.handle then return (s.cluster, some (.name m.name)) else none
  | .status => some (s.cluster, none)

/-- Step `n`. It is `none` if the step is not possible. -/
def step (s : Session) (n : Nat) (st : Step) : Option (Session × Report) := do
  let (acted, found) ← s.effect st
  let after := acted.settle
  let origins := s.origins ++ List.replicate (acted.calls.length - s.origins.length) n
  let finding := match st with
    | .status => some (.running after.keeper.running (after.members.map (·.running)))
    | _ => found
  return (⟨after, origins⟩,
    { ended := ended origins s.cluster after
      opened := opened origins after
      store := if after.keeper.handle then some after.sight else none
      finding })

def run (s : Session) (n : Nat) : List Step → Option (List Report)
  | [] => some []
  | st :: rest => do
    let (s, report) ← s.step n st
    return report :: (← s.run (n + 1) rest)

/-- The reports of a session on a new cluster. -/
def reports (setup : Setup) (steps : List Step) : Option (List Report) := (start setup).run 0 steps

end Session

end Custody
