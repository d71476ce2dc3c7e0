import Custody.Cluster.Run
import Custody.Parking
import Custody.Trace

/-!
# The walkthrough

A fixed course of events between two clients of one store, around one key. The first client
reads the key and writes it; the second reads it and now owns it; the first reads it again and
parks; the second reads it from its cache and writes it, and with that the parked read is
answered. Every event is put into a trace line, and the walkthrough stops at a line that is
refused. At the end all handles are let go of and the actors stop.

The walkthrough is one more party beside the actors: `proceed` is its next move, and which of
them moves first is left open.
-/

namespace Custody

inductive Walkthrough.Beat where
  | call (i : Nat) (a : Action)
  | launch (i : Nat)
  | untilParked
  | collect (i : Nat)
  | inspect
  | close
  | join
  deriving DecidableEq, Repr

inductive Walkthrough.Ending where
  | completed
  | failed (f : Fault)
  deriving DecidableEq, Repr

/-- `waiting` is the call that the first beat to do waits for, `launched` the call that was made
without waiting, and `time` what has gone by since the wait for a parked reader began. -/
structure Walkthrough where
  cluster : Cluster
  todo : List Walkthrough.Beat
  waiting : Option Nat := none
  launched : Option Nat := none
  time : Nat := 0
  lines : List Trace.Line := []
  ending : Option Walkthrough.Ending := none
  deriving DecidableEq

namespace Walkthrough

def key : Key := "alpha"

def script (first second : Value) : List Beat :=
  [.call 0 .get, .call 0 (.put first), .call 1 .get, .launch 0, .untilParked, .call 1 .get,
    .call 1 (.put second), .collect 0, .inspect, .close, .join]

def start (first second : Value) (depth : Nat) : Walkthrough where
  cluster := .start { clients := [{ name := "client1", depth }, { name := "client2", depth }], depth }
  todo := script first second

/-- The line for an action that has been answered. -/
def stepOf (a : Action) (r : ClientReply) : Trace.Step :=
  match a with
  | .put v => .put key v r
  | _ => .get key r

def fail (w : Walkthrough) (f : Fault) : Walkthrough :=
  { w with todo := [], waiting := none, ending := some (.failed f) }

/-- The first beat is over. -/
def next (w : Walkthrough) : Walkthrough := { w with todo := w.todo.tail, waiting := none, time := 0 }

/-- Offers a line. The one in place `refused` is not taken. -/
def emit (refused : Option Nat) (w : Walkthrough) (i : Nat) (st : Trace.Step) : Walkthrough :=
  if refused = some w.lines.length then w.fail .lineRefused
  else { w.next with lines := w.lines ++ [⟨w.cluster.nameOf i, st⟩] }

def callFor (w : Walkthrough) (t : Target) : Option Walkthrough := do
  let cluster ← w.cluster.call t key
  return { w with cluster, waiting := some w.cluster.calls.length }

/-- Goes on with the reply to call `c`, once it has ended. -/
def awaitReply (w : Walkthrough) (c : Nat) (go : ClientReply → Walkthrough) : Option Walkthrough := do
  match ← w.cluster.ended? c with
  | .answered (.client r) => some (go r)
  | .failed f => some (w.fail f)
  | _ => none

def awaitSnapshot (w : Walkthrough) (c : Nat) (go : Snapshot → Walkthrough) :
    Option Walkthrough := do
  match ← w.cluster.ended? c with
  | .answered (.snapshot s) => some (go s)
  | .failed f => some (w.fail f)
  | _ => none

/-- An action is launched once it is in the client's queue. -/
def awaitLaunch (w : Walkthrough) (c i : Nat) (go : Walkthrough) : Option Walkthrough :=
  match w.cluster.ended? c with
  | some (.failed f) => some (w.fail f)
  | some _ => none
  | none => if w.cluster.isBlocked c i then none else some go

def glance (w : Walkthrough) (s : Snapshot) : Walkthrough :=
  match Parking.judge key 0 ⟨.shown s, w.time⟩ with
  | some .parked => w.next
  | some (.failed f) => w.fail f
  | none => { w with waiting := none, time := w.time + Parking.pause }

def letGo (w : Walkthrough) : Walkthrough :=
  let members := w.cluster.members.map fun m => { m with handle := false }
  { w with cluster := { w.cluster with members }.closeStore }

def allStopped (w : Walkthrough) : Bool :=
  !w.cluster.keeper.running && w.cluster.members.all fun m => !m.running

/-- The walkthrough's own next move; nothing while it has to wait, or when it is over. -/
def proceed (refused : Option Nat) (w : Walkthrough) : Option Walkthrough :=
  match w.todo, w.waiting with
  | [], _ => if w.ending.isNone then some { w with ending := some .completed } else none
  | .call i a :: _, none => w.callFor (.client i a .attached)
  | .call i a :: _, some c => w.awaitReply c fun r => w.emit refused i (stepOf a r)
  | .launch i :: _, none => w.callFor (.client i .get (.dispatched true))
  | .launch i :: _, some c =>
    w.awaitLaunch c i ({ w with launched := some c }.emit refused i (.parked key))
  | .untilParked :: _, none => w.callFor .snapshot
  | .untilParked :: _, some c => w.awaitSnapshot c w.glance
  | .collect _ :: _, none => do
    let c ← w.launched
    let cluster ← w.cluster.wait c
    return { w with cluster, waiting := some c }
  | .collect i :: _, some c => w.awaitReply c fun r => w.emit refused i (.resumed key r)
  | .inspect :: _, none => w.callFor .snapshot
  | .inspect :: _, some c => w.awaitSnapshot c fun _ => w.next
  | .close :: _, _ => some w.letGo.next
  | .join :: _, _ => if w.allStopped then some w.next else none

inductive Move where
  | actor (m : Custody.Move)
  | proceed
  deriving DecidableEq, Repr

def fire (refused : Option Nat) (w : Walkthrough) : Move → Option Walkthrough
  | .actor m => (w.cluster.fire m).map fun (cluster, _) => { w with cluster }
  | .proceed => w.proceed refused

def run (refused : Option Nat) (w : Walkthrough) : List Move → Option Walkthrough
  | [] => some w
  | m :: rest => do (← w.fire refused m).run refused rest

def moves (w : Walkthrough) : List Move := w.cluster.moves.map .actor ++ [.proceed]

def advance (refused : Option Nat) (w : Walkthrough) : Option Walkthrough :=
  w.moves.findSome? (w.fire refused)

/-- What a beat can still add to the load of the cluster, and one more for each move. -/
def Beat.load (waiting : Bool) (time : Nat) : Beat → Nat
  | call _ _ | launch _ => if waiting then 1 else 6
  | untilParked => 4 * (Parking.patience + 1 - time) - if waiting then 3 else 0
  | collect _ => if waiting then 1 else 2
  | inspect => if waiting then 1 else 4
  | close | join => 1

def load (w : Walkthrough) : Nat :=
  w.cluster.load + w.ending.isNone.toNat + match w.todo with
    | [] => 0
    | b :: rest => b.load w.waiting.isSome w.time + total (Beat.load false 0) rest

def settleIn (refused : Option Nat) : Nat → Walkthrough → Walkthrough
  | 0, w => w
  | n + 1, w => match w.advance refused with
    | some v => settleIn refused n v
    | none => w

/-- The whole walkthrough. The actors move first whenever they can. -/
def perform (first second : Value) (depth : Nat) (refused : Option Nat) : Walkthrough :=
  let w := start first second depth
  settleIn refused w.load w

end Walkthrough

end Custody
