import Custody.Cluster.State

/-!
# Moves

What the actors of a cluster, and the callers that wait, do of their own accord. Each move does
one thing and reports it as an event. A move that is not possible is `none`; which of the
possible moves comes first is left open.

* `serve`: the store takes the first message of its inbox.
* `begin i`: member `i` takes up the first job of its inbox.
* `resume i`: member `i` finishes the job it has asked the store about.
* `leave i`, `retire`: a member or the store stops, when nobody can reach it any more.
* `finish c`: the caller of `c` takes note of the outcome.
-/

namespace Custody

inductive Move where
  | serve
  | begin (i : Nat)
  | resume (i : Nat)
  | leave (i : Nat)
  | retire
  | finish (c : Nat)
  deriving DecidableEq, Repr

inductive Event where
  | served (r : Request Requester) (v : Verdict Requester)
  | observed (c : Nat) (s : Snapshot)
  | asked (i : Nat) (job : Job)
  | answered (i : Nat) (job : Job) (r : ClientReply)
  | left (i : Nat)
  | retired
  | ended (c : Nat) (o : Outcome)
  deriving DecidableEq, Repr

def Fate.news : Fate → Slot StoreReply
  | answered r => .full r
  | discarded => .dropped

namespace Cluster

/-- The store decides on a request, and those concerned hear of it. -/
def handle (s : Cluster) (r : Request Requester) : Cluster × Verdict Requester :=
  let (store, verdict) := s.keeper.store.handle s.isPresent r
  let after := { s with keeper := { s.keeper with store } }
  ((verdict.fates r.who).foldl (fun s f => s.deliver f.1 f.2.news) after, verdict)

def observe (s : Cluster) (c : Nat) : Cluster × Snapshot :=
  let shot := s.keeper.store.snapshot
  (s.onCall c (·.receive (.full (.snapshot shot))), shot)

def serve (s : Cluster) : Option (Cluster × Event) :=
  match s.keeper.running, s.keeper.inbox.entries with
  | true, command :: rest =>
    let s := { s with keeper := { s.keeper with inbox := { s.keeper.inbox with entries := rest } } }
    match command with
    | .request r =>
      let (s, verdict) := s.handle r
      some (s, .served r verdict)
    | .snapshot c =>
      let (s, shot) := s.observe c
      some (s, .observed c shot)
  | _, _ => none

/-- Member `i` has settled a job, and its caller is told. -/
def reply (s : Cluster) (i : Nat) (job : Job) (r : ClientReply) : Cluster × Event :=
  (s.onCall job.call (·.receive (.full (.client r))), .answered i job r)

def finishJob (s : Cluster) (i : Nat) (m : Member) (job : Job) (answer : Option StoreReply) :
    Cluster × Event :=
  let (cache, r) := m.cache.finish job.key job.action answer
  (s.onMember i fun _ => { m with cache, work := none }).reply i job r

/-- A store that has stopped answers nothing, and the job is settled at once. -/
def begin (s : Cluster) (i : Nat) : Option (Cluster × Event) := do
  let m ← s.members[i]?
  match m.running, m.work, m.inbox.entries with
  | true, none, job :: rest =>
    let (cache, r) := m.cache.start job.key job.action
    let m := { m with cache, inbox := { m.inbox with entries := rest } }
    match r with
    | some r => some ((s.onMember i fun _ => m).reply i job r)
    | none =>
      if s.keeper.running then
        let s := s.onMember i fun _ => { m with work := some ⟨job, .empty⟩ }
        some (s.send (.request ⟨job.action.operation, job.key, .client i⟩), .asked i job)
      else some (s.finishJob i m job none)
  | _, _, _ => none

def resume (s : Cluster) (i : Nat) : Option (Cluster × Event) := do
  let m ← s.members[i]?
  match m.work with
  | some ⟨job, .full r⟩ => some (s.finishJob i m job (some r))
  | some ⟨job, .dropped⟩ => some (s.finishJob i m job none)
  | _ => none

/-- Somebody can still send to member `i`. -/
def reaches (s : Cluster) (i : Nat) (m : Member) : Bool :=
  m.handle || s.calls.any (·.attachedTo i)

def leave (s : Cluster) (i : Nat) : Option (Cluster × Event) := do
  let m ← s.members[i]?
  if m.running && m.work.isNone && m.inbox.entries.isEmpty && !s.reaches i m then
    some (s.onMember i .halt, .left i)
  else none

/-- Somebody can still send to the store. -/
def reachesStore (s : Cluster) : Bool :=
  s.keeper.handle || s.members.any (·.running) || s.calls.any (·.onStore)

/-- Those still parked when the store stops are told that no answer will come. -/
def dropWaiters (s : Cluster) : Cluster :=
  s.keeper.store.waiters.toList.foldl (fun s w => s.deliver w.2 .dropped) s

def retire (s : Cluster) : Option (Cluster × Event) :=
  if s.keeper.running && s.keeper.inbox.entries.isEmpty && !s.reachesStore then
    some ({ s.dropWaiters with keeper := s.keeper.halt }, .retired)
  else none

/-- What a caller makes of the news that no reply will come. -/
def lossOf (s : Cluster) (c : Call) : Fault :=
  match c.target with
  | .client i _ _ => .clientDropped (s.nameOf i) c.key
  | .store _ => .failure .replyDropped
  | .snapshot => .snapshotUnanswered

def outcome? (s : Cluster) (c : Call) : Option Outcome :=
  match c.status with
  | .pending false (.full a) => some (.answered a)
  | .pending false .dropped => some (.failed (s.lossOf c))
  | .pending false .spent => some .void
  | _ => none

def finish (s : Cluster) (id : Nat) : Option (Cluster × Event) := do
  let c ← s.calls[id]?
  let o ← s.outcome? c
  some (s.onCall id fun c => { c with status := .ended o }, .ended id o)

def fire (s : Cluster) : Move → Option (Cluster × Event)
  | .serve => s.serve
  | .begin i => s.begin i
  | .resume i => s.resume i
  | .leave i => s.leave i
  | .retire => s.retire
  | .finish c => s.finish c

end Cluster

end Custody
