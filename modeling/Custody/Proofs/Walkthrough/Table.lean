import Custody.Proofs.Contention.Standing
import Custody.Proofs.Walkthrough.Moves

/-!
# What is on the table

A walkthrough makes at most one call at a time on each client, and asks for at most one snapshot. So
all there is to know about its cluster is the store, the messages on their way to it, what each
client has cached and how far its call has come, and how far the snapshot has come. That is a
`Table`; every move of an actor changes it in one of a few ways.
-/

namespace Custody.Walkthrough

/-- A call on a client, and how far it has come. -/
structure Task where
  call : Nat
  action : Action
  manner : Manner
  held : Bool
  leg : Leg

namespace Task

def job (t : Task) : Job := ⟨t.call, t.action, key⟩

def status (t : Task) : Status :=
  match t.leg with
  | .queued | .asked _ => .pending t.held .empty
  | .told r => .pending t.held (.full (.client r))
  | .noted r => .ended (.answered (.client r))

/-- The call as client `i` has it from its caller. -/
def record (t : Task) (i : Nat) : Call := ⟨.client i t.action t.manner, key, t.status⟩

def hear (t : Task) (f : Option Fate) : Task :=
  match t.leg with
  | .asked slot => { t with leg := .asked (slot.hear f) }
  | _ => t

end Task

/-- A client: what it has cached, and the call it is at. -/
structure Seat where
  cache : Cache := ∅
  task : Option Task := none

def nameFor : Nat → String
  | 0 => "client1"
  | _ => "client2"

namespace Seat

def member (x : Seat) (depth i : Nat) : Member where
  name := nameFor i
  inbox := ⟨roomFor depth, x.task.elim [] fun t => t.leg.inbox t.job⟩
  cache := x.cache
  work := x.task.bind fun t => t.leg.work t.job

def hear (x : Seat) (f : Option Fate) : Seat := { x with task := x.task.map (·.hear f) }

/-- What client `i`, or the caller that waits for it, can do, and what goes to the store. -/
inductive Goes (i : Nat) (x : Seat) : Seat → List Command → Prop where
  | asks (t : Task) (cache : Cache) (htask : x.task = some t) (hleg : t.leg = .queued)
      (hstart : x.cache.start key t.action = (cache, none)) :
      Goes i x ⟨cache, some { t with leg := .asked .empty }⟩
        [.request ⟨t.action.operation, key, .client i⟩]
  | settles (t : Task) (cache : Cache) (r : ClientReply) (htask : x.task = some t)
      (hleg : t.leg = .queued) (hstart : x.cache.start key t.action = (cache, some r)) :
      Goes i x ⟨cache, some { t with leg := .told r }⟩ []
  | resumes (t : Task) (slot : Slot StoreReply) (answer : Option StoreReply) (cache : Cache)
      (r : ClientReply) (htask : x.task = some t) (hleg : t.leg = .asked slot)
      (hanswer : slot.answer? = some answer)
      (hfinish : x.cache.finish key t.action answer = (cache, r)) :
      Goes i x ⟨cache, some { t with leg := .told r }⟩ []
  | notes (t : Task) (r : ClientReply) (htask : x.task = some t) (hleg : t.leg = .told r)
      (hheld : t.held = false) : Goes i x { x with task := some { t with leg := .noted r } } []

end Seat

/-- How far a snapshot has come. -/
inductive Query.Leg where
  | sent
  | told (s : Snapshot)
  | noted (s : Snapshot)

structure Query where
  call : Nat
  leg : Query.Leg

def Query.record (q : Query) : Call :=
  ⟨.snapshot, key, match q.leg with
    | .sent => .pending false .empty
    | .told s => .pending false (.full (.snapshot s))
    | .noted s => .ended (.answered (.snapshot s))⟩

structure Table where
  store : Store Requester
  queue : List Command := []
  seats : List Seat
  query : Option Query := none

namespace Table

/-- Call `c` is at one of the seats, or it is the snapshot. -/
def Has (b : Table) (c : Nat) : Prop :=
  (∃ (i : Nat) (x : Seat) (t : Task), b.seats[i]? = some x ∧ x.task = some t ∧ t.call = c) ∨
    ∃ q, b.query = some q ∧ q.call = c

/-- The call for a snapshot that a message is of. -/
def watched? : Command → Option Nat
  | .snapshot c => some c
  | .request _ => none

/-- Only clients ask the store for a key, and the queue has the message of a snapshot that has been
sent for, and no other. -/
structure Sober (b : Table) : Prop where
  queued : ∀ c r, .request r ∈ b.queue → r.who ≠ .caller c
  parked : ∀ c k, b.store.waiter k ≠ some (.caller c)
  watched : b.queue.filterMap watched? = match b.query with
    | some ⟨c, .sent⟩ => [c]
    | _ => []

def hear (b : Table) (fates : List (Requester × Fate)) : List Seat :=
  b.seats.mapIdx fun i x => x.hear (fates.lookup (.client i))

/-- The store has dealt with a request, and those whom it concerns have heard of it. -/
def served (b : Table) (present : Requester → Bool) (r : Request Requester)
    (rest : List Command) : Table :=
  { b with
    store := (b.store.handle present r).1, queue := rest,
    seats := b.hear ((b.store.handle present r).2.fates r.who) }

/-- What a move of an actor can make of the table. -/
inductive Goes (b : Table) : Table → Prop where
  | serves (r : Request Requester) (rest : List Command) (present : Requester → Bool)
      (hqueue : b.queue = .request r :: rest)
      (hpresent : ∀ i, i < b.seats.length → present (.client i) = true) :
      Goes b (b.served present r rest)
  | observes (c : Nat) (rest : List Command) (hqueue : b.queue = .snapshot c :: rest)
      (hquery : b.query = some ⟨c, .sent⟩) :
      Goes b { b with queue := rest, query := some ⟨c, .told b.store.snapshot⟩ }
  | seat (i : Nat) (x x' : Seat) (sent : List Command) (hx : b.seats[i]? = some x)
      (hgoes : x.Goes i x' sent) :
      Goes b { b with queue := b.queue ++ sent, seats := b.seats.set i x' }
  | notices (c : Nat) (s : Snapshot) (hquery : b.query = some ⟨c, .told s⟩) :
      Goes b { b with query := some ⟨c, .noted s⟩ }

end Table

/-- The cluster has its queues of that depth and, for the rest, is what the table shows. -/
structure Shows (depth : Nat) (s : Cluster) (b : Table) : Prop where
  keeper : s.keeper = { inbox := ⟨roomFor depth, b.queue⟩, store := b.store }
  members : ∀ i, s.members[i]? = b.seats[i]?.map fun x : Seat => x.member depth i
  tasks : ∀ (i : Nat) x t, b.seats[i]? = some x → x.task = some t →
    s.calls[t.call]? = some (t.record i)
  query : ∀ q, b.query = some q → s.calls[q.call]? = some q.record
  closed : ∀ (c : Nat) call, s.calls[c]? = some call → call.isPending = true → b.Has c
  sober : b.Sober

variable {depth : Nat} {s u : Cluster} {b : Table} {i j c : Nat} {x : Seat} {t t' : Task}
  {q : Query} {e : Event}

theorem shows_start (first second : Value) :
    Shows depth (start first second depth).cluster { store := {}, seats := [{}, {}] } where
  keeper := rfl
  members i := by
    obtain _ | _ | i := i
    · rfl
    · rfl
    · rfl
  tasks i x t hx htask := by
    obtain _ | _ | i := i
    · obtain rfl := Option.some.inj hx
      cases htask
    · obtain rfl := Option.some.inj hx
      cases htask
    · cases hx
  query := nofun
  closed c call hcall := by simp [start, Cluster.start] at hcall
  sober := ⟨nofun, fun c k => by simp [Store.waiter], rfl⟩

namespace Task

theorem call_hear (t : Task) (f : Option Fate) : (t.hear f).call = t.call := by
  obtain ⟨c, a, manner, held, leg⟩ := t
  cases leg <;> rfl

theorem record_hear (t : Task) (f : Option Fate) (i : Nat) :
    (t.hear f).record i = t.record i := by
  obtain ⟨c, a, manner, held, leg⟩ := t
  cases leg <;> rfl

end Task

theorem Seat.member_hear (x : Seat) (f : Option Fate) :
    (x.hear f).member depth i = (x.member depth i).hear f := by
  obtain ⟨cache, task⟩ := x
  cases task with
  | none => rfl
  | some t =>
    obtain ⟨c, a, manner, held, leg⟩ := t
    cases leg <;> rfl

namespace Shows

theorem member_some (shows : Shows depth s b) {m : Member} (hm : s.members[i]? = some m) :
    ∃ x, b.seats[i]? = some x ∧ m = x.member depth i := by
  rw [shows.members i, Option.map_eq_some_iff] at hm
  obtain ⟨x, hx, rfl⟩ := hm
  exact ⟨x, hx, rfl⟩

theorem member_of_seat (shows : Shows depth s b) (hx : b.seats[i]? = some x) :
    s.members[i]? = some (x.member depth i) := by
  rw [shows.members i, hx]
  rfl

/-- Two clients are never at the same call. -/
theorem seat_unique (shows : Shows depth s b) {y : Seat} (hx : b.seats[i]? = some x)
    (htask : x.task = some t) (hy : b.seats[j]? = some y) (htask' : y.task = some t')
    (hcall : t'.call = t.call) : i = j := by
  have hrecord := shows.tasks j y t' hy htask'
  rw [hcall, shows.tasks i x t hx htask] at hrecord
  injection hrecord with hrecord
  exact (Target.client.inj (Call.mk.inj hrecord).1).1

theorem query_ne (shows : Shows depth s b) (hx : b.seats[i]? = some x) (htask : x.task = some t)
    (hq : b.query = some q) : t.call ≠ q.call := by
  intro hcall
  have hrecord := shows.query q hq
  rw [← hcall, shows.tasks i x t hx htask] at hrecord
  cases hrecord

/-! ## One seat -/

theorem getElem?_set_seat (hx : b.seats[i]? = some x) (y : Seat) (j : Nat) :
    (b.seats.set i y)[j]? = if i = j then some y else b.seats[j]? := by
  rw [List.getElem?_set, if_pos (List.getElem?_eq_some_iff.mp hx).1]

/-- A seat that looks the same as before changes nobody. -/
theorem members_of_same (shows : Shows depth s b) (hx : b.seats[i]? = some x) {y : Seat}
    (hsame : y.member depth i = x.member depth i) (j : Nat) :
    s.members[j]? = if i = j then some (y.member depth i) else s.members[j]? := by
  split
  · rename_i hij
    rw [← hij, shows.member_of_seat hx, hsame]
  · rfl

/-- The call at one seat goes on, and nothing else changes but perhaps the queue. -/
theorem onSeat {queue : List Command} {cache : Cache} (shows : Shows depth s b)
    (hx : b.seats[i]? = some x) (htask : x.task = some t) (t' : Task) (hcall : t'.call = t.call)
    (hkeeper : u.keeper = { inbox := ⟨roomFor depth, queue⟩, store := b.store })
    (hmembers : ∀ j, u.members[j]? =
      if i = j then some (Seat.member ⟨cache, some t'⟩ depth i) else s.members[j]?)
    (hcalls : ∀ c, u.calls[c]? = if t.call = c then some (t'.record i) else s.calls[c]?)
    (hsober : queue = b.queue ∨ ∃ op j, queue = b.queue ++ [.request ⟨op, key, .client j⟩]) :
    Shows depth u { b with queue, seats := b.seats.set i ⟨cache, some t'⟩ } := by
  have hseats := getElem?_set_seat hx ⟨cache, some t'⟩
  refine ⟨hkeeper, ?_, ?_, ?_, ?_, ?_⟩
  · intro j
    rw [hmembers, hseats]
    split
    · rename_i hij
      rw [← hij]
      rfl
    · exact shows.members j
  · intro j y t₁ hy htask₁
    simp only [hseats] at hy
    split at hy
    · rename_i hij
      obtain rfl := Option.some.inj hy
      obtain rfl := Option.some.inj htask₁
      rw [hcalls, if_pos hcall.symm, ← hij]
    · rename_i hij
      rw [hcalls, if_neg fun hsame => hij (shows.seat_unique hx htask hy htask₁ hsame.symm)]
      exact shows.tasks j y t₁ hy htask₁
  · intro q hq
    rw [hcalls, if_neg (shows.query_ne hx htask hq)]
    exact shows.query q hq
  · intro c call hc hpending
    rw [hcalls] at hc
    split at hc
    · rename_i hsame
      refine Or.inl ⟨i, ⟨cache, some t'⟩, t', ?_, rfl, hcall.trans hsame⟩
      simp only [hseats, if_pos]
    · rename_i hother
      obtain ⟨j, y, t₁, hy, htask₁, rfl⟩ | hquery := shows.closed c call hc hpending
      · have hij : i ≠ j := by
          rintro rfl
          obtain rfl := Option.some.inj (hx.symm.trans hy)
          obtain rfl := Option.some.inj (htask.symm.trans htask₁)
          exact hother rfl
        refine Or.inl ⟨j, y, t₁, ?_, htask₁, rfl⟩
        simp only [hseats, if_neg hij]
        exact hy
      · exact Or.inr hquery
  · obtain rfl | ⟨op, j, rfl⟩ := hsober
    · exact ⟨shows.sober.queued, shows.sober.parked, shows.sober.watched⟩
    · refine ⟨fun c r hr => ?_, shows.sober.parked, ?_⟩
      · rcases List.mem_append.mp hr with hr | hr
        · exact shows.sober.queued c r hr
        · obtain rfl := Command.request.inj (List.mem_singleton.mp hr)
          nofun
      · rw [List.filterMap_append, shows.sober.watched]
        exact List.append_nil _

end Shows

theorem calls_of_onCall {f : Call → Call} {call call' : Call} (hcall : s.calls[c]? = some call)
    (hf : f call = call') :
    ∀ n, (s.onCall c f).calls[n]? = if c = n then some call' else s.calls[n]? := by
  intro n
  rw [Cluster.calls_onCall]
  split
  · rename_i hn
    rw [← hn, hcall, Option.map_some, hf]
  · rfl

/-! ## The moves -/

namespace Shows

/-- What a client has in its inbox and in hand shows how far its call has come. -/
theorem queued_of_entries (x : Seat) {job : Job} {rest : List Job}
    (h : (x.member depth i).inbox.entries = job :: rest) :
    ∃ t, x.task = some t ∧ t.leg = .queued ∧ job = t.job ∧ rest = [] := by
  obtain ⟨cache, task⟩ := x
  cases task with
  | none => cases h
  | some t =>
    obtain ⟨c, a, manner, held, leg⟩ := t
    cases leg with
    | queued =>
      cases h
      exact ⟨_, rfl, rfl, rfl, rfl⟩
    | _ => cases h

theorem asked_of_work (x : Seat) {job : Job} {slot : Slot StoreReply}
    (h : (x.member depth i).work = some ⟨job, slot⟩) :
    ∃ t, x.task = some t ∧ t.leg = .asked slot ∧ job = t.job := by
  obtain ⟨cache, task⟩ := x
  cases task with
  | none => cases h
  | some t =>
    obtain ⟨c, a, manner, held, leg⟩ := t
    cases leg with
    | asked slot =>
      cases h
      exact ⟨_, rfl, rfl, rfl⟩
    | _ => cases h

/-- The member of a seat is replaced, and perhaps its caller hears of its call. -/
theorem replaced {queue : List Command} {cache : Cache} (shows : Shows depth s b)
    (hx : b.seats[i]? = some x) (htask : x.task = some t) (t' : Task) (hcall : t'.call = t.call)
    (hkeeper : u.keeper = { inbox := ⟨roomFor depth, queue⟩, store := b.store })
    (hmembers : u.members = (s.onMember i fun _ => Seat.member ⟨cache, some t'⟩ depth i).members)
    (hcalls : ∀ c, u.calls[c]? = if t.call = c then some (t'.record i) else s.calls[c]?)
    (hsober : queue = b.queue ∨ ∃ op j, queue = b.queue ++ [.request ⟨op, key, .client j⟩]) :
    Shows depth u { b with queue, seats := b.seats.set i ⟨cache, some t'⟩ } := by
  refine shows.onSeat hx htask t' hcall hkeeper (fun j => ?_) hcalls hsober
  rw [hmembers, Cluster.members_onMember]
  split
  · rename_i hij
    rw [← hij, shows.member_of_seat hx]
    rfl
  · rfl

theorem begin (shows : Shows depth s b) (h : s.begin i = some (u, e)) :
    ∃ b', b.Goes b' ∧ Shows depth u b' := by
  obtain ⟨m, job, rest, cache, hm, _, _, hentries, hcases⟩ := Cluster.begin_cases h
  obtain ⟨x, hx, rfl⟩ := shows.member_some hm
  obtain ⟨⟨c, a, manner, held, leg⟩, htask, hleg, rfl, rfl⟩ := queued_of_entries x hentries
  obtain rfl : leg = .queued := hleg
  obtain ⟨before, task⟩ := x
  obtain rfl : task = _ := htask
  have hrecord := shows.tasks i _ _ hx rfl
  obtain ⟨r, hstart, rfl, _⟩ | ⟨hstart, _, rfl, _⟩ | ⟨_, hstopped, _⟩ := hcases
  · refine ⟨_, .seat i _ _ _ hx (.settles _ cache r rfl rfl hstart), ?_⟩
    rw [List.append_nil]
    exact shows.replaced hx rfl ⟨c, a, manner, held, .told r⟩ rfl shows.keeper rfl
      (calls_of_onCall (s := s.onMember i _) hrecord rfl) (Or.inl rfl)
  · refine ⟨_, .seat i _ _ _ hx (.asks _ cache rfl rfl hstart), ?_⟩
    refine shows.replaced hx rfl ⟨c, a, manner, held, .asked .empty⟩ rfl ?_ rfl ?_
      (Or.inr ⟨_, i, rfl⟩)
    · simp [Cluster.send, shows.keeper, Inbox.push, Task.job]
    · intro n
      split
      · rename_i hn
        rw [← hn]
        exact hrecord
      · rfl
  · rw [shows.keeper] at hstopped
    cases hstopped

theorem resume (shows : Shows depth s b) (h : s.resume i = some (u, e)) :
    ∃ b', b.Goes b' ∧ Shows depth u b' := by
  obtain ⟨m, job, slot, answer, cache, r, hm, hwork, hanswer, hfinish, rfl, _⟩ :=
    Cluster.resume_cases h
  obtain ⟨x, hx, rfl⟩ := shows.member_some hm
  obtain ⟨⟨c, a, manner, held, leg⟩, htask, hleg, rfl⟩ := asked_of_work x hwork
  obtain rfl : leg = .asked slot := hleg
  obtain ⟨before, task⟩ := x
  obtain rfl : task = _ := htask
  refine ⟨_, .seat i _ _ _ hx (.resumes _ slot answer cache r rfl rfl hanswer hfinish), ?_⟩
  rw [List.append_nil]
  exact shows.replaced hx rfl ⟨c, a, manner, held, .told r⟩ rfl shows.keeper rfl
    (calls_of_onCall (s := s.onMember i _) (shows.tasks i _ _ hx rfl) rfl) (Or.inl rfl)

/-- The call for the snapshot goes on, and nothing else changes but perhaps the queue. -/
theorem onQuery {queue : List Command} (shows : Shows depth s b) (hq : b.query = some q)
    (q' : Query) (hcall : q'.call = q.call)
    (hkeeper : u.keeper = { inbox := ⟨roomFor depth, queue⟩, store := b.store })
    (hmembers : u.members = s.members)
    (hcalls : ∀ c, u.calls[c]? = if q.call = c then some q'.record else s.calls[c]?)
    (hsober : Table.Sober { b with queue, query := some q' }) :
    Shows depth u { b with queue, query := some q' } where
  keeper := hkeeper
  members i := by
    rw [hmembers]
    exact shows.members i
  tasks i x t hx htask := by
    rw [hcalls, if_neg fun hsame => shows.query_ne hx htask hq hsame.symm]
    exact shows.tasks i x t hx htask
  query q₁ hq₁ := by
    obtain rfl := Option.some.inj hq₁
    rw [hcalls, if_pos hcall.symm]
  closed c call hc hpending := by
    rw [hcalls] at hc
    split at hc
    · rename_i hsame
      exact Or.inr ⟨q', rfl, hcall.trans hsame⟩
    · rename_i hother
      obtain htask | ⟨q₁, hq₁, rfl⟩ := shows.closed c call hc hpending
      · exact Or.inl htask
      · obtain rfl := Option.some.inj (hq.symm.trans hq₁)
        exact absurd rfl hother
  sober := hsober

/-- A caller that takes note of its outcome waits at a seat or for the snapshot. -/
theorem finish (shows : Shows depth s b) (h : s.finish c = some (u, e)) :
    ∃ b', b.Goes b' ∧ Shows depth u b' := by
  obtain ⟨call, o, hcall, ho, rfl, _⟩ := Cluster.finish_cases h
  obtain ⟨i, x, t, hx, htask, rfl⟩ | ⟨q, hq, rfl⟩ :=
    shows.closed c call hcall (Cluster.pending_of_outcome ho)
  · have hrecord := shows.tasks i x t hx htask
    obtain rfl := Option.some.inj (hcall.symm.trans hrecord)
    obtain ⟨c, a, manner, held, leg⟩ := t
    obtain ⟨cache, task⟩ := x
    obtain rfl : task = _ := htask
    cases leg with
    | told r =>
      cases held with
      | true => cases ho
      | false =>
        obtain rfl := Option.some.inj ho
        refine ⟨_, .seat i _ _ _ hx (.notes _ r rfl rfl rfl), ?_⟩
        rw [List.append_nil]
        exact shows.onSeat hx rfl ⟨c, a, manner, false, .noted r⟩ rfl shows.keeper
          (shows.members_of_same hx rfl) (calls_of_onCall hrecord rfl) (Or.inl rfl)
    | queued => cases held <;> cases ho
    | asked slot => cases held <;> cases ho
    | noted r => cases ho
  · have hrecord := shows.query q hq
    obtain rfl := Option.some.inj (hcall.symm.trans hrecord)
    obtain ⟨c, leg⟩ := q
    cases leg with
    | told shot =>
      obtain rfl := Option.some.inj ho
      have hwatched := shows.sober.watched
      rw [hq] at hwatched
      exact ⟨_, .notices c shot hq, shows.onQuery hq ⟨c, .noted shot⟩ rfl shows.keeper rfl
        (calls_of_onCall hrecord rfl) ⟨shows.sober.queued, shows.sober.parked, hwatched⟩⟩
    | sent => cases ho
    | noted shot => cases ho

theorem isPresent (shows : Shows depth s b) (hi : i < b.seats.length) :
    s.isPresent (.client i) = true := by
  have hm := shows.member_of_seat (List.getElem?_eq_getElem hi)
  simp [Cluster.isPresent, hm, Seat.member]

/-- No caller hears of a request of a client. -/
theorem unheard (shows : Shows depth s b) {r : Request Requester} (hr : .request r ∈ b.queue)
    (present : Requester → Bool) (c : Nat) :
    ((b.store.handle present r).2.fates r.who).lookup (.caller c) = none :=
  Store.unheard_of_unconcerned (shows.sober.queued c r hr) (shows.sober.parked c r.key)

/-- The store deals with the first request in its queue. -/
theorem served (shows : Shows depth s b) {r : Request Requester} {rest : List Command}
    (hqueue : b.queue = .request r :: rest) :
    Shows depth ((s.stored rest (b.store.handle s.isPresent r).1).tell
      ((b.store.handle s.isPresent r).2.fates r.who)) (b.served s.isPresent r rest) := by
  have hr : .request r ∈ b.queue := by
    rw [hqueue]
    exact List.mem_cons_self
  have hcalls : ∀ c : Nat, ((s.stored rest (b.store.handle s.isPresent r).1).tell
      ((b.store.handle s.isPresent r).2.fates r.who)).calls[c]? = s.calls[c]? := by
    intro c
    rw [Cluster.calls_tell, shows.unheard hr, Cluster.calls_stored]
    exact Option.map_id'
  have hseats : ∀ i, (b.served s.isPresent r rest).seats[i]? =
      b.seats[i]?.map fun x : Seat =>
        x.hear (((b.store.handle s.isPresent r).2.fates r.who).lookup (.client i)) := by
    intro i
    rw [Table.served, Table.hear, List.getElem?_mapIdx]
  refine ⟨?_, ?_, ?_, ?_, ?_, ?_⟩
  · rw [Cluster.keeper_tell, Cluster.stored, shows.keeper]
    rfl
  · intro i
    rw [Cluster.members_tell, Cluster.members_stored, shows.members i, hseats]
    cases b.seats[i]? with
    | none => rfl
    | some x => exact congrArg some (x.member_hear _).symm
  · intro i y t' hy htask'
    rw [hseats, Option.map_eq_some_iff] at hy
    obtain ⟨x, hx, rfl⟩ := hy
    obtain ⟨t, htask, rfl⟩ := Option.map_eq_some_iff.mp htask'
    rw [hcalls, t.call_hear, t.record_hear]
    exact shows.tasks i x t hx htask
  · intro q hq
    rw [hcalls]
    exact shows.query q hq
  · intro c call hc hpending
    rw [hcalls] at hc
    obtain ⟨i, x, t, hx, htask, hcall⟩ | hquery := shows.closed c call hc hpending
    · exact Or.inl ⟨i, _, _, (hseats i).trans (congrArg _ hx),
        congrArg (Option.map _) htask, (t.call_hear _).trans hcall⟩
    · exact Or.inr hquery
  · refine ⟨fun c p hp => shows.sober.queued c p ?_, fun c k hk => ?_, ?_⟩
    · rw [hqueue]
      exact List.mem_cons_of_mem _ hp
    · rcases Store.waiter_cases hk with ⟨hbefore, _⟩ | ⟨_, hwho, _⟩
      · exact shows.sober.parked c k hbefore
      · exact shows.sober.queued c r hr hwho
    · have hwatched := shows.sober.watched
      rw [hqueue] at hwatched
      exact hwatched

/-- A message of a snapshot is of the one that has been sent for. -/
theorem query_of_queue (shows : Shows depth s b) {rest : List Command}
    (hqueue : b.queue = .snapshot c :: rest) :
    b.query = some ⟨c, .sent⟩ ∧ rest.filterMap Table.watched? = [] := by
  have hwatched := shows.sober.watched
  rw [hqueue, List.filterMap_cons_some (f := Table.watched?) (a := .snapshot c) rfl] at hwatched
  split at hwatched
  · rename_i c' hquery
    obtain ⟨rfl, hrest⟩ := List.cons.inj hwatched
    exact ⟨hquery, hrest⟩
  · cases hwatched

theorem serve (shows : Shows depth s b) (h : s.serve = some (u, e)) :
    ∃ b', b.Goes b' ∧ Shows depth u b' := by
  have hkeeper := shows.keeper
  have hstore : s.keeper.store = b.store := by rw [hkeeper]
  obtain ⟨_, rest, ⟨r, hentries, rfl, _⟩ | ⟨c, hentries, rfl, _⟩⟩ := Cluster.serve_cases h
  · have hqueue : b.queue = .request r :: rest := by
      rw [hkeeper] at hentries
      exact hentries
    rw [hstore]
    exact ⟨_, .serves r rest s.isPresent hqueue fun i hi => shows.isPresent hi, shows.served hqueue⟩
  · have hqueue : b.queue = .snapshot c :: rest := by
      rw [hkeeper] at hentries
      exact hentries
    obtain ⟨hquery, hrest⟩ := shows.query_of_queue hqueue
    rw [hstore]
    refine ⟨_, .observes c rest hqueue hquery, ?_⟩
    refine shows.onQuery hquery ⟨c, .told b.store.snapshot⟩ rfl ?_ rfl
      (calls_of_onCall (s := s.stored rest b.store) (shows.query _ hquery) rfl) ?_
    · rw [Cluster.keeper_onCall, Cluster.stored, hkeeper]
    · refine ⟨fun c' r hr => shows.sober.queued c' r ?_, shows.sober.parked, hrest⟩
      rw [hqueue]
      exact List.mem_cons_of_mem _ hr

/-- As long as all handles are there, nobody stops. -/
theorem fire {m : Custody.Move} (shows : Shows depth s b) (h : s.fire m = some (u, e)) :
    ∃ b', b.Goes b' ∧ Shows depth u b' := by
  cases m with
  | serve => exact shows.serve h
  | begin i => exact shows.begin h
  | resume i => exact shows.resume h
  | leave i =>
    obtain ⟨m, hm, _, _, _, hreaches, _⟩ := Cluster.leave_cases h
    obtain ⟨x, _, rfl⟩ := shows.member_some hm
    cases hreaches
  | retire =>
    obtain ⟨_, _, hreaches, _⟩ := Cluster.retire_cases h
    rw [Cluster.reachesStore, shows.keeper] at hreaches
    cases hreaches
  | finish c => exact shows.finish h

end Shows

end Custody.Walkthrough
