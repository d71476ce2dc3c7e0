import Custody.Cluster.Run

/-!
# Contention

Several clients of one store, each with a worker that over and over gets the same key and puts
back the value it got plus its own delta. Workers and actors move in any order; which moves
first is left open.
-/

namespace Custody

inductive Worker.Stage where
  | resting
  | getting (c : Nat)
  | putting (c : Nat)
  deriving DecidableEq, Repr

/-- `rounds` are those still to be begun. -/
structure Worker where
  delta : Value
  rounds : Nat
  stage : Worker.Stage := .resting
  gets : Nat := 0
  puts : Nat := 0
  hits : Nat := 0
  deriving DecidableEq, Repr

structure Contention where
  key : Key
  cluster : Cluster
  workers : List Worker
  deriving DecidableEq

namespace Worker

/-- A worker whose call comes to nothing gives up. -/
def quit (w : Worker) : Worker := { w with rounds := 0, stage := .resting }

def got (w : Worker) (r : ClientReply) : Worker :=
  { w with gets := w.gets + r.ok.toNat, hits := w.hits + r.hit.toNat }

def did (w : Worker) (r : ClientReply) : Worker :=
  { w with puts := w.puts + r.ok.toNat, stage := .resting }

def load (w : Worker) : Nat :=
  11 * w.rounds + match w.stage with
    | .resting => 0
    | .getting _ => 6
    | .putting _ => 1

end Worker

namespace Contention

inductive Move where
  | actor (m : Custody.Move)
  | work (j : Nat)
  deriving DecidableEq, Repr

/-- One client, and one worker, for each delta. -/
def start (key : Key) (rounds : Nat) (deltas : List Value) (depth : Nat) : Contention where
  key
  cluster := .start
    { clients := deltas.mapIdx fun j _ => { name := "client" ++ toString (j + 1), depth }, depth }
  workers := deltas.map fun delta => { delta, rounds }

def onWorker (s : Contention) (j : Nat) (w : Worker) : Contention :=
  { s with workers := s.workers.set j w }

def callFor (s : Contention) (j : Nat) (a : Action) : Option Contention := do
  let cluster ← s.cluster.call (.client j a .attached) s.key
  return { s with cluster }

/-- The next thing that worker `j` does; nothing while it waits for a reply or is done. -/
def work (s : Contention) (j : Nat) : Option Contention := do
  let w ← s.workers[j]?
  let c := s.cluster.calls.length
  match w.stage with
  | .resting =>
    match w.rounds with
    | 0 => none
    | n + 1 =>
      let s ← s.callFor j .get
      return s.onWorker j { w with rounds := n, stage := .getting c }
  | .getting id =>
    match ← s.cluster.ended? id with
    | .answered (.client r) =>
      let s ← s.callFor j (.put (r.value + w.delta))
      return s.onWorker j { w.got r with stage := .putting c }
    | _ => return s.onWorker j w.quit
  | .putting id =>
    match ← s.cluster.ended? id with
    | .answered (.client r) => return s.onWorker j (w.did r)
    | _ => return s.onWorker j w.quit

def fire (s : Contention) : Move → Option Contention
  | .actor m => (s.cluster.fire m).map fun (cluster, _) => { s with cluster }
  | .work j => s.work j

def run (s : Contention) : List Move → Option Contention
  | [] => some s
  | m :: rest => do (← s.fire m).run rest

def moves (s : Contention) : List Move :=
  s.cluster.moves.map .actor ++ (List.range s.workers.length).map .work

def atRest (s : Contention) : Bool := s.moves.all fun m => (s.fire m).isNone

def load (s : Contention) : Nat := s.cluster.load + total Worker.load s.workers

def advance (s : Contention) : Option Contention := s.moves.findSome? s.fire

def settleIn : Nat → Contention → Contention
  | 0, s => s
  | n + 1, s => match s.advance with
    | some t => settleIn n t
    | none => s

/-- Every move lowers the load, so nothing is left to do in the end. -/
def settle (s : Contention) : Contention := settleIn s.load s

end Contention

end Custody
