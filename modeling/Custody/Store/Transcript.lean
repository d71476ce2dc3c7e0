import Custody.Store.Desk
import Custody.Store.Snapshot

/-!
# Transcripts of a desk

A list of orders to an empty desk, with what can be seen of the store after each. The ticket of
a request is the place of its order in the list.
-/

namespace Custody.Desk

inductive Order where
  | request (op : Operation) (k : Key) (gone : Bool)
  | leave (t : Ticket)
  | look (k : Key)
  | snapshot
  deriving DecidableEq, Repr

/-- What the store shows about one key. -/
structure View where
  owned : Bool
  waiter : Bool
  value : Option Value
  deriving DecidableEq, Repr

structure Report where
  replies : List (Ticket × Fate)
  view : Option View
  snapshot : Option Snapshot
  deriving DecidableEq, Repr

structure Transcript where
  reports : List Report
  parked : List Ticket
  final : Snapshot
  deriving DecidableEq, Repr

def view (d : Desk) (k : Key) : View :=
  ⟨d.store.isOwned k, d.store.hasWaiter k, d.store.value k⟩

def Order.step? (t : Ticket) : Order → Option Step
  | request op k gone => some (.submit ⟨op, k, t⟩ gone)
  | leave earlier => some (.leave earlier)
  | look _ => none
  | snapshot => none

def Order.key? : Order → Option Key
  | request _ k _ => some k
  | look k => some k
  | leave _ => none
  | snapshot => none

/-- Carries out the order in place `t`. Replies are listed by ticket. -/
def obey (d : Desk) (t : Ticket) (o : Order) : Desk × Report :=
  let after := match o.step? t with
    | some st => (d.step st).1
    | none => d
  let replies := match o.step? t with
    | some st => (d.heard st).mergeSort fun a b => a.1 ≤ b.1
    | none => []
  (after,
    { replies
      view := o.key?.map after.view
      snapshot := match o with
        | .snapshot => some after.store.snapshot
        | _ => none })

def obeyAll (d : Desk) (t : Ticket) : List Order → Desk × List Report
  | [] => (d, [])
  | o :: rest =>
    let (after, report) := d.obey t o
    let (last, reports) := after.obeyAll (t + 1) rest
    (last, report :: reports)

/-- The transcript of a desk that starts with an empty store. -/
def transcript (orders : List Order) : Transcript :=
  let (last, reports) := obeyAll {} 0 orders
  ⟨reports, last.pending.toList, last.store.snapshot⟩

end Custody.Desk
