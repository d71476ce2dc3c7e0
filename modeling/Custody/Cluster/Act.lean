import Custody.Cluster.Move

/-!
# Acts

What is done to a cluster from outside: calls are made, looked at, awaited and given up, handles
are let go of, actors are killed. A call can be made only through a handle that is still there;
an act that is not possible is `none`.
-/

namespace Custody

inductive Act where
  | call (t : Target) (k : Key)
  | take (c : Nat)
  | wait (c : Nat)
  | cancel (c : Nat)
  | closeClient (i : Nat)
  | closeStore
  | killClient (i : Nat)
  | killStore
  deriving DecidableEq, Repr

namespace Cluster

def enter (s : Cluster) (t : Target) (k : Key) (status : Status) : Cluster :=
  { s with calls := s.calls ++ [⟨t, k, status⟩] }

/-- A call on an actor that has stopped fails at once. -/
def call (s : Cluster) (t : Target) (k : Key) : Option Cluster :=
  let id := s.calls.length
  let opened := s.enter t k (.pending t.isHeld .empty)
  let refused (f : Fault) := s.enter t k (.ended (.failed f))
  match t with
  | .client i action _ =>
    match s.members[i]? with
    | none => none
    | some m =>
      if !m.handle then none
      else if m.running then
        some (opened.onMember i fun m => { m with inbox := m.inbox.push ⟨id, action, k⟩ })
      else some (refused (.failure (.clientUnavailable m.name)))
  | .store op =>
    if !s.keeper.handle then none
    else if s.keeper.running then some (opened.send (.request ⟨op, k, .caller id⟩))
    else some (refused (.failure .storeUnavailable))
  | .snapshot =>
    if !s.keeper.handle then none
    else if s.keeper.running then some (opened.send (.snapshot id))
    else some (refused .snapshotNotSent)

/-- What a look at a held call would find. -/
def peek (s : Cluster) (id : Nat) : Option Answer := do
  let c ← s.calls[id]?
  match c.status with
  | .pending true (.full a) => some a
  | _ => none

/-- Call `id` has sent its action to member `i`, and it is still outside the queue. -/
def isBlocked (s : Cluster) (id : Nat) (i : Nat) : Bool :=
  s.members[i]?.any fun m => m.inbox.blocked.any fun job => job.call == id

/-- How a call has ended, for a caller that waited. -/
def ended? (s : Cluster) (id : Nat) : Option Outcome := do
  let c ← s.calls[id]?
  match c.status with
  | .ended o => some o
  | _ => none

/-- A look at a held call. It takes the reply if there is one, and takes notice if none will
come; the two are not told apart from a reply that is still to come. -/
def take (s : Cluster) (id : Nat) : Option Cluster := do
  let c ← s.calls[id]?
  match c.status with
  | .pending true (.full a) => some (s.onCall id fun c => { c with status := .taken a })
  | .pending true .dropped =>
    some (s.onCall id fun c => { c with status := .pending true .spent })
  | .pending true _ => some s
  | _ => none

def wait (s : Cluster) (id : Nat) : Option Cluster := do
  let c ← s.calls[id]?
  match c.status with
  | .pending true slot => some (s.onCall id fun c => { c with status := .pending false slot })
  | _ => none

/-- Takes back what a requester has sent to the store and what is still outside. -/
def withdraw (s : Cluster) (who : Requester) : Cluster :=
  { s with keeper :=
    { s.keeper with inbox := s.keeper.inbox.withdraw fun command => command.sender == who } }

def withdrawJob (s : Cluster) (i : Nat) (id : Nat) : Cluster :=
  s.onMember i fun m => { m with inbox := m.inbox.withdraw fun job => job.call == id }

/-- The caller goes away. What has reached an actor's queue stays there. -/
def cancel (s : Cluster) (id : Nat) : Cluster :=
  match s.calls[id]? with
  | none => s
  | some c =>
    if c.isPending then
      let s := match c.target with
        | .client i _ _ => s.withdrawJob i id
        | _ => s.withdraw (.caller id)
      s.onCall id fun c => { c with status := .cancelled }
    else s

def closeClient (s : Cluster) (i : Nat) : Option Cluster :=
  if i < s.members.length then some (s.onMember i fun m => { m with handle := false }) else none

def closeStore (s : Cluster) : Cluster := { s with keeper := { s.keeper with handle := false } }

/-- A member is stopped where it stands. Jobs in its queue and the one in hand are lost, those
outside are turned away, and what it has asked of the store is left to itself. -/
def killClient (s : Cluster) (i : Nat) : Option Cluster := do
  let m ← s.members[i]?
  if m.running then
    let lost := m.work.toList.map (·.job) ++ m.inbox.queued
    let s := lost.foldl (fun s job => s.onCall job.call (·.receive .dropped)) s
    let s := m.inbox.blocked.foldl
      (fun s job => s.onCall job.call (·.refuse (.failure (.clientUnavailable m.name)))) s
    some ((s.withdraw (.client i)).onMember i .halt)
  else some s

/-- A message in the queue of a store that is killed. -/
def lose (s : Cluster) : Command → Cluster
  | .request r => s.deliver r.who .dropped
  | .snapshot c => s.onCall c (·.receive .dropped)

/-- A message outside the queue of a store that is killed. -/
def turnAway (s : Cluster) : Command → Cluster
  | .request ⟨_, _, .client i⟩ => s.deliver (.client i) .dropped
  | .request ⟨_, _, .caller c⟩ => s.onCall c (·.refuse (.failure .storeUnavailable))
  | .snapshot c => s.onCall c (·.refuse .snapshotNotSent)

def killStore (s : Cluster) : Cluster :=
  if s.keeper.running then
    let inbox := s.keeper.inbox
    let s := inbox.queued.foldl lose s.dropWaiters
    let s := inbox.blocked.foldl turnAway s
    { s with keeper := s.keeper.halt }
  else s

def perform (s : Cluster) : Act → Option Cluster
  | .call t k => s.call t k
  | .take c => s.take c
  | .wait c => s.wait c
  | .cancel c => some (s.cancel c)
  | .closeClient i => s.closeClient i
  | .closeStore => some s.closeStore
  | .killClient i => s.killClient i
  | .killStore => some s.killStore

end Cluster

end Custody
