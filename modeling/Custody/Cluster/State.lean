import Custody.Client.Cache
import Custody.Cluster.Inbox
import Custody.Setup
import Custody.Store.Snapshot

/-!
# Clusters

One store and a number of clients, each an actor with an inbox, and the calls made on them.
The client in place `i` is member `i`; calls are numbered in the order in which they are made.
An actor works on one message at a time. A member that has asked the store does nothing until
the answer arrives or is lost.
-/

namespace Custody

/-- The receiving end of a reply: nothing yet, the reply, the news that none will come, or that
news already taken notice of. -/
inductive Slot (α : Type) where
  | empty
  | full (a : α)
  | dropped
  | spent
  deriving DecidableEq, Repr

namespace Slot

variable {α β : Type}

/-- Only the first thing to arrive counts. -/
def fill : Slot α → Slot α → Slot α
  | empty, news => news
  | full a, _ => full a
  | dropped, _ => dropped
  | spent, _ => spent

def map (f : α → β) : Slot α → Slot β
  | empty => empty
  | full a => full (f a)
  | dropped => dropped
  | spent => spent

end Slot

inductive Answer where
  | client (r : ClientReply)
  | store (r : StoreReply)
  | snapshot (s : Snapshot)
  deriving DecidableEq, Repr

/-- A caller that waits for a reply after it has taken notice that none will come makes a mistake:
it breaks off, and its call is void. -/
inductive Outcome where
  | answered (a : Answer)
  | failed (f : Fault)
  | void
  deriving DecidableEq, Repr

/-- An attached caller waits for the reply and keeps its handle on the client until then. One that
dispatches lets go of it once the action is in the client's queue; it may hold the call, and then
the reply stays in its slot until somebody takes it or waits for it. -/
inductive Manner where
  | attached
  | dispatched (held : Bool)
  deriving DecidableEq, Repr

/-- Whom a call is for. Callers of the store are always attached. -/
inductive Target where
  | client (i : Nat) (action : Action) (manner : Manner)
  | store (op : Operation)
  | snapshot
  deriving DecidableEq, Repr

inductive Status where
  | pending (held : Bool) (slot : Slot Answer)
  | ended (o : Outcome)
  | taken (a : Answer)
  | cancelled
  deriving DecidableEq, Repr

structure Call where
  target : Target
  key : Key
  status : Status
  deriving DecidableEq, Repr

structure Job where
  call : Nat
  action : Action
  key : Key
  deriving DecidableEq, Repr

/-- A job for which the store has been asked. -/
structure Work where
  job : Job
  answer : Slot StoreReply
  deriving DecidableEq, Repr

structure Member where
  name : String
  inbox : Inbox Job
  handle : Bool := true
  running : Bool := true
  cache : Cache := ∅
  work : Option Work := none
  deriving DecidableEq

inductive Requester where
  | client (i : Nat)
  | caller (call : Nat)
  deriving DecidableEq, Repr

inductive Command where
  | request (r : Request Requester)
  | snapshot (call : Nat)
  deriving DecidableEq, Repr

def Command.sender : Command → Requester
  | request r => r.who
  | snapshot call => .caller call

/-- The actor that runs the store. -/
structure Keeper where
  inbox : Inbox Command
  handle : Bool := true
  running : Bool := true
  store : Store Requester := {}
  deriving DecidableEq

structure Cluster where
  keeper : Keeper
  members : List Member
  calls : List Call := []
  deriving DecidableEq

def Status.isPending : Status → Bool
  | pending _ _ => true
  | _ => false

def Target.isHeld : Target → Bool
  | client _ _ (.dispatched held) => held
  | _ => false

namespace Call

def isPending (c : Call) : Bool := c.status.isPending

def receive (c : Call) (news : Slot Answer) : Call :=
  match c.status with
  | .pending held slot => { c with status := .pending held (slot.fill news) }
  | _ => c

/-- The call comes to nothing at once. -/
def refuse (c : Call) (f : Fault) : Call :=
  if c.isPending then { c with status := .ended (.failed f) } else c

/-- An open call that keeps its handle on client `i`. -/
def attachedTo (c : Call) (i : Nat) : Bool :=
  match c.target with
  | .client j _ .attached => c.isPending && j == i
  | _ => false

/-- An open call that keeps a handle on the store. -/
def onStore (c : Call) : Bool :=
  match c.target with
  | .client _ _ _ => false
  | _ => c.isPending

end Call

namespace Member

def start (setup : ClientSetup) : Member :=
  { name := setup.name, inbox := ⟨roomFor setup.depth, []⟩ }

/-- What is left of an actor that has stopped. -/
def halt (m : Member) : Member :=
  { m with running := false, inbox := m.inbox.clear, cache := ∅, work := none }

def receive (m : Member) (news : Slot StoreReply) : Member :=
  { m with work := m.work.map fun w => { w with answer := w.answer.fill news } }

end Member

namespace Keeper

def halt (k : Keeper) : Keeper := { k with running := false, inbox := k.inbox.clear, store := {} }

end Keeper

namespace Cluster

def start (setup : Setup) : Cluster :=
  { keeper := { inbox := ⟨roomFor setup.depth, []⟩ }, members := setup.clients.map .start }

def onMember (s : Cluster) (i : Nat) (f : Member → Member) : Cluster :=
  { s with members := s.members.modify i f }

def onCall (s : Cluster) (id : Nat) (f : Call → Call) : Cluster :=
  { s with calls := s.calls.modify id f }

def nameOf (s : Cluster) (i : Nat) : String :=
  match s.members[i]? with
  | some m => m.name
  | none => ""

/-- Whether an answer would still find its requester. -/
def isPresent (s : Cluster) : Requester → Bool
  | .client i => s.members[i]?.any (·.running)
  | .caller id => s.calls[id]?.any (·.isPending)

def send (s : Cluster) (c : Command) : Cluster :=
  { s with keeper := { s.keeper with inbox := s.keeper.inbox.push c } }

/-- Tells a requester what became of its request. -/
def deliver (s : Cluster) (who : Requester) (news : Slot StoreReply) : Cluster :=
  match who with
  | .client i => s.onMember i (·.receive news)
  | .caller id => s.onCall id (·.receive (news.map .store))

end Cluster

end Custody
