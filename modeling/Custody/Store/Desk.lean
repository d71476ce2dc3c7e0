import Custody.Store.Basic

/-!
# A desk

A store together with those who asked it. Each request carries a ticket, and the desk keeps
the tickets of requests that are neither settled nor given up. A requester may give up at any
time, even before the store sees the request; the store then settles the request all the same,
but nobody hears of it.
-/

namespace Custody

abbrev Ticket := Nat

structure Desk where
  store : Store Ticket := {}
  pending : Std.ExtTreeSet Ticket := ∅
  deriving DecidableEq

namespace Desk

inductive Step where
  | submit (r : Request Ticket) (gone : Bool)
  | leave (t : Ticket)
  deriving DecidableEq, Repr

def isPresent (d : Desk) (t : Ticket) : Bool := d.pending.contains t

def receive (d : Desk) (t : Ticket) (gone : Bool) : Desk :=
  if gone then d else { d with pending := d.pending.insert t }

/-- The store's decision on a request that has come in. A ticket whose fate is settled is
no longer pending. -/
def serve (d : Desk) (r : Request Ticket) : Desk × Verdict Ticket :=
  let (store, verdict) := d.store.handle d.isPresent r
  let pending := (verdict.fates r.who).foldl (fun p f => p.erase f.1) d.pending
  ({ store, pending }, verdict)

/-- Leaving twice, or after an answer, changes nothing. -/
def leave (d : Desk) (t : Ticket) : Desk := { d with pending := d.pending.erase t }

def step (d : Desk) : Step → Desk × Option (Verdict Ticket)
  | .submit r gone =>
    let (after, verdict) := (d.receive r.who gone).serve r
    (after, some verdict)
  | .leave t => (d.leave t, none)

/-- The fates settled by a step that somebody hears of. -/
def heard (d : Desk) : Step → List (Ticket × Fate)
  | .submit r gone =>
    let front := d.receive r.who gone
    ((front.serve r).2.fates r.who).filter fun f => front.isPresent f.1
  | .leave _ => []

/-- The desk after a list of steps. -/
def run (d : Desk) (steps : List Step) : Desk :=
  steps.foldl (fun d st => (d.step st).1) d

end Desk

end Custody
