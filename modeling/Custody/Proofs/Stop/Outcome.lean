import Custody.Proofs.Stop.Backlog

/-!
# A stopped store blocks nobody

When the store of a cluster at rest is killed, the clients work off their backlogs and all callers
are told how their calls end. From then on a client answers each job as soon as it takes it up, and
no key enters or leaves its cache.
-/

namespace Custody

theorem Cache.map_fst_refuseAll (cache : Cache) (jobs : List Job) :
    (cache.refuseAll jobs).2.map Prod.fst = jobs := by
  induction jobs generalizing cache with
  | nil => rfl
  | cons job rest ih => simp [refuseAll, ih]

namespace Member

/-- A backlog has a reply for each job, in the order of the jobs. -/
theorem map_fst_backlog (m : Member) : m.backlog.2.map Prod.fst = m.jobs := by
  simp [backlog, jobs, Cache.map_fst_refuseAll, Function.comp_def]

theorem backlog_hear (m : Member) (f : Option Fate) : (m.hear f).backlog = m.backlog := by
  obtain ⟨name, inbox, handle, running, cache, work⟩ := m
  cases work <;> rfl

end Member

namespace Cluster

/-- Whatever `s` left open has come to its end in `t`, by the events `now`. -/
structure WoundUp (s t : Cluster) (now : List Event) : Prop where
  held : ∀ (c : Nat) call, t.calls[c]? = some call → call.isPending = true →
    ∃ slot, call.status = .pending true slot
  store : ∀ (c : Nat) call op, s.calls[c]? = some call → call.target = .store op →
    call.isPending = true → ∃ call', t.calls[c]? = some call' ∧
      call'.status = .ended (.failed (.failure .replyDropped))
  replies : ∀ (i : Nat) m, s.members[i]? = some m → m.running = true →
    repliesOf now i = m.backlog.2 ∧ (repliesOf now i).map Prod.fst = m.jobs
  caches : ∀ (i : Nat) m m', s.members[i]? = some m → t.members[i]? = some m' →
    m'.running = true → m'.cache = m.backlog.1
  callers : ∀ (c : Nat) call i act manner held, s.calls[c]? = some call →
    call.target = .client i act manner → call.status = .pending held .empty →
      ∃ r call', (⟨c, act, call.key⟩, r) ∈ repliesOf now i ∧ t.calls[c]? = some call' ∧
        call'.status = Status.settled held (.client r)

/-- No client waits for the store: it answers each job when it takes it up, and a call that is made
at rest is answered before the clients are at rest again. -/
structure Forsaken (s : Cluster) : Prop where
  atOnce : ∀ (i : Nat) m job rest, s.members[i]? = some m → m.running = true →
    m.inbox.entries = job :: rest → ∃ t, s.begin i =
      some (t, .answered i job (m.cache.refuse job.key job.action).2) ∧
        t.members[i]? = some (m.take (m.cache.refuse job.key job.action).1 rest)
  neverLater : ∀ i, s.resume i = none
  inStep : ∀ (i : Nat) m act manner k t, s.atRest = true → s.members[i]? = some m →
    m.running = true → s.call (.client i act manner) k = some t →
      ∀ (moves : List Move) u now, t.run (moves.map .move) = some (u, now) → u.atRest = true →
        repliesOf now i = [(⟨s.calls.length, act, k⟩, (m.cache.refuse k act).2)] ∧
        (∀ m', u.members[i]? = some m' → m'.running = true → m'.cache = (m.cache.refuse k act).1) ∧
        ∃ call, u.calls[s.calls.length]? = some call ∧ call.status =
          Status.settled (Target.client i act manner).isHeld (.client (m.cache.refuse k act).2)

/-- Every client that runs in `t` ran in `s`, with the same keys cached. -/
def KeepsKeys (s t : Cluster) : Prop := ∀ (i : Nat) m', t.members[i]? = some m' →
  m'.running = true → ∃ m, s.members[i]? = some m ∧ m.running = true ∧
    ∀ k, k ∈ m'.cache ↔ k ∈ m.cache

variable {s t u : Cluster} {e : Event} {es now : List Event} {i n : Nat} {m m' : Member}
  {job : Job} {r : ClientReply} {mv : Move}

/-! ## At rest -/

theorem Deserted.idle_of_atRest (deserted : s.Deserted) (onRecord : s.OnRecord)
    (hrest : s.atRest = true) (hm : s.members[i]? = some m) : m.work = none := by
  cases hwork : m.work with
  | none => rfl
  | some w =>
    have hslot := onRecord.slot_of_atRest hrest hm hwork
    have hdropped := deserted.dropped i m w hm hwork
    rw [hslot] at hdropped
    cases hdropped

theorem Deserted.entries_of_atRest (deserted : s.Deserted) (onRecord : s.OnRecord)
    (hrest : s.atRest = true) (hm : s.members[i]? = some m) (hrun : m.running = true) :
    m.inbox.entries = [] :=
  entries_of_begin hm hrun (deserted.idle_of_atRest onRecord hrest hm)
    (fire_of_atRest hrest (.begin i))

/-- At rest no call is open, and only one that is held is pending. -/
theorem Deserted.not_open_of_atRest (deserted : s.Deserted) (onRecord : s.OnRecord)
    (hrest : s.atRest = true) {call : Call} (hcall : s.calls[n]? = some call) : ¬ call.Open := by
  intro hopen
  have hhand := onRecord.inHand hcall hopen
  unfold InHand at hhand
  split at hhand
  · obtain ⟨m, hm, hrun, hjob⟩ := hhand
    rw [Member.jobs, deserted.idle_of_atRest onRecord hrest hm,
      deserted.entries_of_atRest onRecord hrest hm hrun] at hjob
    cases hjob
  · have hrun := hhand.1
    rw [deserted.stopped] at hrun
    cases hrun

theorem Deserted.held_of_atRest (deserted : s.Deserted) (onRecord : s.OnRecord)
    (hrest : s.atRest = true) {call : Call} (hcall : s.calls[n]? = some call)
    (hpending : call.isPending = true) : ∃ slot, call.status = .pending true slot := by
  cases hstatus : call.status with
  | pending held slot =>
    cases held with
    | true => exact ⟨slot, rfl⟩
    | false =>
      obtain rfl := empty_of_atRest hrest hcall hstatus
      exact absurd ⟨false, hstatus⟩ (deserted.not_open_of_atRest onRecord hrest hcall)
  | _ =>
    rw [Call.isPending, hstatus] at hpending
    cases hpending

theorem WorksOff.replies_of_atRest (worksOff : s.WorksOff t now) (hrest : t.atRest = true)
    (hm : s.members[i]? = some m) (hrun : m.running = true) : repliesOf now i = m.backlog.2 := by
  obtain ⟨m', hm', hreplies, _, hempty⟩ := worksOff.backlog i m hm
  have hdone : m'.backlog.2 = [] := by
    cases hrun' : m'.running with
    | false => exact hempty hrun hrun'
    | true =>
      rw [Member.backlog_of_idle (worksOff.deserted.idle_of_atRest worksOff.onRecord hrest hm')
        (worksOff.deserted.entries_of_atRest worksOff.onRecord hrest hm' hrun')]
  rw [hreplies, hdone, List.append_nil]

theorem WorksOff.cache_of_atRest (worksOff : s.WorksOff t now) (hrest : t.atRest = true)
    (hm : s.members[i]? = some m) (hm' : t.members[i]? = some m') (hrun' : m'.running = true) :
    m'.cache = m.backlog.1 := by
  obtain ⟨m'', hm'', _, hcache, _⟩ := worksOff.backlog i m hm
  obtain rfl := Option.some.inj (hm'.symm.trans hm'')
  rw [← hcache hrun', Member.backlog_of_idle
    (worksOff.deserted.idle_of_atRest worksOff.onRecord hrest hm')
    (worksOff.deserted.entries_of_atRest worksOff.onRecord hrest hm' hrun')]

theorem WorksOff.settled_of_atRest {c : Nat} {call : Call} {act : Action} {manner : Manner}
    {held : Bool} (worksOff : s.WorksOff t now) (hrest : t.atRest = true)
    (hcall : s.calls[c]? = some call) (htarget : call.target = .client i act manner)
    (hstatus : call.status = .pending held .empty) :
    ∃ r call', (⟨c, act, call.key⟩, r) ∈ repliesOf now i ∧ t.calls[c]? = some call' ∧
      call'.status = Status.settled held (.client r) := by
  obtain ⟨call', hcall', _, _, hserved⟩ :=
    worksOff.callers c call i act manner held hcall htarget hstatus
  generalize hlast : call'.status = last at hserved
  cases hserved with
  | waits =>
    exact absurd ⟨held, hlast⟩
      (worksOff.deserted.not_open_of_atRest worksOff.onRecord hrest hcall')
  | told r given =>
    cases held with
    | true => exact ⟨r, call', given, hcall', hlast⟩
    | false => cases empty_of_atRest hrest hcall' hlast
  | settled r given => exact ⟨r, call', given, hcall', hlast⟩

/-! ## From the kill to rest -/

theorem members_killStore (hm : s.members[i]? = some m) :
    ∃ f, s.killStore.members[i]? = some (m.hear f) := by
  obtain ⟨m', hm', f, rfl⟩ := after_of_forall₂ (spread_killStore s) hm
  exact ⟨f, hm'⟩

/-- At rest a call on the store is parked, and it is told when the store is killed. -/
theorem OnRecord.dropped_of_killStore {call : Call} {op : Operation} (onRecord : s.OnRecord)
    (hrest : s.atRest = true) (hcall : s.calls[n]? = some call) (htarget : call.target = .store op)
    (hpending : call.isPending = true) : ∃ call', s.killStore.calls[n]? = some call' ∧
      call'.target = call.target ∧ call'.status = .pending false .dropped := by
  have hstore : call.target.AtStore := by simp [htarget, Target.AtStore]
  have hopen : call.status = .pending false .empty := by
    cases hstatus : call.status with
    | pending held slot =>
      cases held with
      | true => exact absurd hstatus (onRecord.unheld n call slot hcall hstore)
      | false => rw [empty_of_atRest hrest hcall hstatus]
    | _ =>
      rw [Call.isPending, hstatus] at hpending
      cases hpending
  have hrun := (onRecord.minded (.caller n) ⟨call, hcall, hstore, false, hopen⟩).1
  have hunexpected := onRecord.not_expects_killed hrun (x := .caller n)
  have hkilled : s.killStore.calls[n]? = some (call.hear ((s.keeper.store.waiters.toList.map
      fun w => (w.2, Fate.discarded)).lookup (.caller n))) := by
    rw [killStore_of_atRest hrun hrest]
    change s.dropWaiters.calls[n]? = _
    rw [dropWaiters_eq_tell, calls_tell, hcall]
    rfl
  refine ⟨_, hkilled, Call.target_hear, ?_⟩
  cases hf : (s.keeper.store.waiters.toList.map
      fun w => (w.2, Fate.discarded)).lookup (.caller n) with
  | none =>
    rw [hf] at hkilled
    exact absurd ⟨call, hkilled, hstore, false, hopen⟩ hunexpected
  | some f =>
    rw [fate_of_lookup hf, Call.hear, Call.receive, hopen]
    rfl

/-- What leaves a call alone each time leaves it alone. -/
theorem calls_foldl {α : Type} {g : Cluster → α → Cluster} {as : List α}
    (hg : ∀ a ∈ as, ∀ s : Cluster, (g s a).calls[n]? = s.calls[n]?) :
    (as.foldl g s).calls[n]? = s.calls[n]? := by
  induction as generalizing s with
  | nil => rfl
  | cons a rest ih =>
    rw [List.foldl_cons, ih fun b hb => hg b (List.mem_cons_of_mem _ hb),
      hg a List.mem_cons_self]

theorem calls_lose {command : Command} (hne : command.sender ≠ .caller n) :
    (s.lose command).calls[n]? = s.calls[n]? := by
  rw [lose_eq_tell, tell_cons, tell_nil, calls_deliver, if_neg hne]

theorem calls_turnAway {command : Command} (hne : command.sender ≠ .caller n) :
    (s.turnAway command).calls[n]? = s.calls[n]? := by
  rcases command with ⟨op, key, i | c⟩ | c
  · rfl
  · have hc : c ≠ n := fun hc => hne (congrArg Requester.caller hc)
    exact (calls_onCall s n c _).trans (if_neg hc)
  · have hc : c ≠ n := fun hc => hne (congrArg Requester.caller hc)
    exact (calls_onCall s n c _).trans (if_neg hc)

/-- A store that is killed has nothing to say to those who have called a client. -/
theorem OnRecord.call_killStore {call : Call} {act : Action} {manner : Manner}
    (onRecord : s.OnRecord) (hcall : s.calls[n]? = some call)
    (htarget : call.target = .client i act manner) : s.killStore.calls[n]? = some call := by
  have hunlisted : ¬ s.Lists (.caller n) := by
    intro hlists
    obtain ⟨call', hcall', hstore⟩ := onRecord.callers n hlists
    obtain rfl := Option.some.inj (hcall.symm.trans hcall')
    exact hstore i act manner htarget
  have hunsent : ∀ command ∈ s.keeper.inbox.entries, command.sender ≠ .caller n :=
    fun command hmem hsender => hunlisted (Or.inl ⟨command, hmem, hsender⟩)
  have hqueued : ∀ command ∈ s.keeper.inbox.queued, command.sender ≠ .caller n :=
    fun command hmem => hunsent command (List.mem_of_mem_take hmem)
  have hblocked : ∀ command ∈ s.keeper.inbox.blocked, command.sender ≠ .caller n :=
    fun command hmem => hunsent command (List.mem_of_mem_drop hmem)
  have hdropped : s.dropWaiters.calls[n]? = some call := by
    rw [dropWaiters_eq_tell, calls_tell, hcall]
    cases hf : (s.keeper.store.waiters.toList.map
        fun w => (w.2, Fate.discarded)).lookup (.caller n) with
    | none => rfl
    | some f => exact absurd (Or.inr (waiter_of_lookup hf)) hunlisted
  unfold killStore
  split
  · change (s.keeper.inbox.blocked.foldl turnAway
      (s.keeper.inbox.queued.foldl lose s.dropWaiters)).calls[n]? = _
    rw [calls_foldl fun command hmem _ => calls_turnAway (hblocked command hmem),
      calls_foldl fun command hmem _ => calls_lose (hqueued command hmem), hdropped]
  · exact hcall

theorem woundUp_of_atRest {moves : List Move} (onRecord : s.OnRecord) (hrest : s.atRest = true)
    (h : s.killStore.run (moves.map .move) = some (t, now)) (hrest' : t.atRest = true) :
    s.WoundUp t now := by
  have worksOff : s.killStore.WorksOff t now :=
    worksOff_run (deserted_killStore onRecord hrest) (onRecord_killStore onRecord) h
  refine ⟨?_, ?_, ?_, ?_, ?_⟩
  · intro c call hcall hpending
    exact worksOff.deserted.held_of_atRest worksOff.onRecord hrest' hcall hpending
  · intro c call op hcall htarget hpending
    obtain ⟨killed, hkilled, htarget', hdropped⟩ :=
      onRecord.dropped_of_killStore hrest hcall htarget hpending
    obtain ⟨call', hcall', _, hstatus | hended⟩ :=
      worksOff.store c killed op hkilled (htarget'.trans htarget) hdropped
    · cases empty_of_atRest hrest' hcall' hstatus
    · exact ⟨call', hcall', hended⟩
  · intro i m hm hrun
    obtain ⟨f, hkilled⟩ := members_killStore hm
    have hreplies : repliesOf now i = m.backlog.2 := by
      rw [worksOff.replies_of_atRest hrest' hkilled hrun, Member.backlog_hear]
    exact ⟨hreplies, by rw [hreplies, Member.map_fst_backlog]⟩
  · intro i m m' hm hm' hrun'
    obtain ⟨f, hkilled⟩ := members_killStore hm
    rw [worksOff.cache_of_atRest hrest' hkilled hm' hrun', Member.backlog_hear]
  · intro c call i act manner held hcall htarget hstatus
    have hkilled := onRecord.call_killStore hcall htarget
    exact worksOff.settled_of_atRest hrest' hkilled htarget hstatus

/-! ## Without a store -/

/-- A client that has nothing in hand takes up a job and answers it. -/
theorem Deserted.begins {rest : List Job} (deserted : s.Deserted) (hm : s.members[i]? = some m)
    (hrun : m.running = true) (hidle : m.work = none) (hentries : m.inbox.entries = job :: rest) :
    ∃ t, s.begin i = some (t, .answered i job (m.cache.refuse job.key job.action).2) ∧
      t.members[i]? = some (m.take (m.cache.refuse job.key job.action).1 rest) := by
  obtain ⟨t, e, hbegin⟩ : ∃ t e, s.begin i = some (t, e) := by
    cases hbegin : s.begin i with
    | some x => exact ⟨x.1, x.2, rfl⟩
    | none =>
      have hnone := entries_of_begin hm hrun hidle hbegin
      rw [hentries] at hnone
      cases hnone
  obtain ⟨m', job', rest', hm', _, _, hentries', rfl, rfl⟩ := deserted.begin_cases hbegin
  obtain rfl := Option.some.inj (hm.symm.trans hm')
  obtain ⟨rfl, rfl⟩ := List.cons.inj (hentries.symm.trans hentries')
  refine ⟨_, hbegin, ?_⟩
  rw [members_answer, members_onMember, if_pos rfl, hm]
  rfl

theorem resume_of_idle (hidle : ∀ m, s.members[i]? = some m → m.work = none) :
    s.resume i = none := by
  cases hresume : s.resume i with
  | none => rfl
  | some x =>
    obtain ⟨m, _, _, _, _, _, hm, hwork, _⟩ := resume_cases (t := x.1) (e := x.2) hresume
    rw [hidle m hm] at hwork
    cases hwork

theorem Deserted.forsaken (deserted : s.Deserted) (onRecord : s.OnRecord)
    (hidle : ∀ (i : Nat) m, s.members[i]? = some m → m.work = none) : s.Forsaken where
  atOnce i m job rest hm hrun hentries := deserted.begins hm hrun (hidle i m hm) hentries
  neverLater i := resume_of_idle (hidle i)
  inStep := by
    intro i m act manner k t hrest hm hrun hcall moves u now hrun' hrest'
    have hstep : s.step (.act (.call (.client i act manner) k)) = some (t, []) := by
      rw [Cluster.step, perform, hcall]
      rfl
    have worksOff : t.WorksOff u now :=
      worksOff_run (deserted.step hstep) (onRecord_step onRecord hstep) hrun'
    obtain ⟨n, hn, _, ⟨_, rfl⟩ | ⟨hstopped, _⟩⟩ := call_client_cases hcall
    · obtain rfl := Option.some.inj (hm.symm.trans hn)
      have hentries := deserted.entries_of_atRest onRecord hrest hm hrun
      have hsent : ((s.enter (.client i act manner) k
          (.pending (Target.client i act manner).isHeld .empty)).onMember i fun m =>
            { m with inbox := m.inbox.push ⟨s.calls.length, act, k⟩ }).members[i]? =
          some { m with inbox := m.inbox.push ⟨s.calls.length, act, k⟩ } := by
        rw [members_onMember, if_pos rfl]
        exact congrArg (Option.map _) hm
      have hbacklog : Member.backlog { m with inbox := m.inbox.push ⟨s.calls.length, act, k⟩ } =
          ((m.cache.refuse k act).1, [(⟨s.calls.length, act, k⟩, (m.cache.refuse k act).2)]) := by
        simp [Member.backlog, Inbox.push, hentries, hidle i m hm, Cache.refuseAll]
      have hreplies := worksOff.replies_of_atRest hrest' hsent hrun
      rw [hbacklog] at hreplies
      refine ⟨hreplies, ?_, ?_⟩
      · intro m' hm' hrun''
        rw [worksOff.cache_of_atRest hrest' hsent hm' hrun'', hbacklog]
      · have hnew := s.enter_new (.client i act manner) k
          (.pending (Target.client i act manner).isHeld .empty)
        obtain ⟨r, call, hr, hcall', hsettled⟩ :=
          worksOff.settled_of_atRest hrest' hnew rfl rfl
        rw [hreplies] at hr
        cases List.mem_singleton.mp hr
        exact ⟨call, hcall', hsettled⟩
    · obtain rfl := Option.some.inj (hm.symm.trans hn)
      rw [hrun] at hstopped
      cases hstopped

/-- When a store is killed at rest, the actors come to rest again, and then every call has ended
that nobody holds: calls on the store without an answer, calls on clients with a reply, in the order
of the queue. In whatever is done then, clients answer by themselves as soon as they take up a job,
and the keys that they have cached stay the same. -/
theorem stopped_store_blocks_nobody {setup : Setup} {labels : List Label}
    (h : (start setup).run labels = some (s, es)) (hrest : s.atRest = true) :
    (∃ (moves : List Move) (t : Cluster) (now : List Event),
      s.killStore.run (moves.map .move) = some (t, now) ∧ t.atRest = true) ∧
    ∀ (moves : List Move) t now, s.killStore.run (moves.map .move) = some (t, now) →
      t.atRest = true → s.WoundUp t now ∧
        ∀ further u later, t.run further = some (u, later) → u.Forsaken ∧ t.KeepsKeys u := by
  have onRecord : s.OnRecord := onRecord_run (onRecord_start setup) h
  have deserted := deserted_killStore onRecord hrest
  constructor
  · obtain ⟨moves, now, hrun, hrest'⟩ := run_settle s.killStore
    exact ⟨moves, _, now, hrun, hrest'⟩
  · intro moves t now hrun hrest'
    refine ⟨woundUp_of_atRest onRecord hrest hrun hrest', ?_⟩
    intro further u later hfurther
    have hdeserted := (deserted.run hrun).1
    have hrecord := onRecord_run (onRecord_killStore onRecord) hrun
    obtain ⟨hlast, hlinger⟩ := hdeserted.run hfurther
    constructor
    · refine hlast.forsaken (onRecord_run hrecord hfurther) fun i m' hm' => ?_
      obtain ⟨m, hm, hidle | hsame, _⟩ := before_of_forall₂ hlinger hm'
      · exact hidle
      · rw [hsame]
        exact hdeserted.idle_of_atRest hrecord hrest' hm
    · intro i m' hm' hrun'
      obtain ⟨m, hm, hlingers⟩ := before_of_forall₂ hlinger hm'
      obtain ⟨hrunning, hkeys⟩ := hlingers.keys hrun'
      exact ⟨m, hm, hrunning, hkeys⟩

/-- Client `b` has cached "x" and is parked on "k", which client `a` owns. Behind that read it has
a put of "x" in its queue, and a read of "x" outside. A caller of the store waits for "x". -/
def backloggedLabels : List Label :=
  [.act (.call (.client 0 .get .attached) "k"), .move (.begin 0), .move .serve, .move (.resume 0),
    .move (.finish 0), .act (.call (.client 1 .get .attached) "x"), .move (.begin 1), .move .serve,
    .move (.resume 1), .move (.finish 1), .act (.call (.client 1 .get .attached) "k"),
    .move (.begin 1), .move .serve, .act (.call (.client 1 (.put 7) (.dispatched true)) "x"),
    .act (.call (.client 1 .get .attached) "x"), .act (.call (.store .read) "x"), .move .serve]

/-- The read finds what the failed put before it has left in the cache. -/
theorem stopped_store_blocks_nobody_of_backlogged : ∃ s es t now,
    (start ⟨[⟨"a", 1⟩, ⟨"b", 1⟩], 1⟩).run backloggedLabels = some (s, es) ∧ s.atRest = true ∧
      s.killStore.run ([.resume 1, .finish 2, .begin 1, .begin 1, .finish 4, .finish 5].map .move) =
        some (t, now) ∧ t.atRest = true ∧ s.WoundUp t now ∧ t.Forsaken ∧
      repliesOf now 1 = [(⟨2, .get, "k"⟩, .failed .readFailed),
        (⟨3, .put 7, "x"⟩, .failed .writeToMissingKey), (⟨4, .get, "x"⟩, .cacheHit 7)] ∧
      t.calls[5]? = some ⟨.store .read, "x", .ended (.failed (.failure .replyDropped))⟩ := by
  obtain ⟨s, es, t, now, h, hrest, hrun, hrest', hreplies, hcall⟩ : ∃ s es t now,
      (start ⟨[⟨"a", 1⟩, ⟨"b", 1⟩], 1⟩).run backloggedLabels = some (s, es) ∧ s.atRest = true ∧
      s.killStore.run ([.resume 1, .finish 2, .begin 1, .begin 1, .finish 4, .finish 5].map .move) =
        some (t, now) ∧ t.atRest = true ∧
      repliesOf now 1 = [(⟨2, .get, "k"⟩, .failed .readFailed),
        (⟨3, .put 7, "x"⟩, .failed .writeToMissingKey), (⟨4, .get, "x"⟩, .cacheHit 7)] ∧
      t.calls[5]? = some ⟨.store .read, "x", .ended (.failed (.failure .replyDropped))⟩ :=
    ⟨_, _, _, _, rfl, rfl, rfl, rfl, rfl, rfl⟩
  obtain ⟨hwound, hlater⟩ := (stopped_store_blocks_nobody h hrest).2 _ t now hrun hrest'
  exact ⟨s, es, t, now, h, hrest, hrun, hrest', hwound, (hlater [] t [] rfl).1, hreplies, hcall⟩

end Cluster

end Custody
