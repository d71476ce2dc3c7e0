import Custody.Proofs.Client.Halves
import Custody.Proofs.Cluster.Settle
import Custody.Proofs.Stop.Steps

/-!
# Clients without a store

Once the store has stopped, a client settles every job by itself: what it had asked the store about
is lost, and the rest it refuses as soon as it takes it up, unless it finds the key in its cache.
So its backlog tells all its replies in advance, and it works the backlog off in order.
-/

namespace Custody

/-- The reply to an action for which the store was asked in vain. -/
def Action.loss : Action → ClientReply
  | .get => .failed .readFailed
  | .put _ => .failed .writeToMissingKey
  | .unsupported name => .failed (.unknownAction name)

namespace Cache

/-- An action of a client without a store: the cache after it, and the reply. A cached key is found
all the same; a put of one changes the cached value and fails. -/
def refuse (cache : Cache) (k : Key) : Action → Cache × ClientReply
  | .get => match cache[k]? with
    | some v => (cache, .cacheHit v)
    | none => (cache, .failed .readFailed)
  | .put v =>
    if k ∈ cache then (cache.insert k v, .failed .writeToMissingKey)
    else (cache, .failed .localCacheMiss)
  | .unsupported name => (cache, .failed (.unknownAction name))

/-- Job after job of a client without a store. -/
def refuseAll (cache : Cache) : List Job → Cache × List (Job × ClientReply)
  | [] => (cache, [])
  | job :: rest =>
    let (next, r) := cache.refuse job.key job.action
    let (last, replies) := next.refuseAll rest
    (last, (job, r) :: replies)

variable {cache after : Cache} {k : Key} {a : Action} {r : ClientReply}

theorem finish_none (cache : Cache) (k : Key) (a : Action) :
    cache.finish k a none = (cache, a.loss) := by
  cases a <;> rfl

theorem refuse_of_start (h : cache.start k a = (after, some r)) :
    cache.refuse k a = (after, r) := by
  obtain ⟨rfl, ⟨rfl, v, hv, rfl⟩ | ⟨v, rfl, hv, rfl⟩ | ⟨name, rfl, rfl⟩⟩ := start_settles h
  · simp [refuse, hv]
  · simp [refuse, Std.ExtTreeMap.mem_iff_isSome_getElem?, hv]
  · rfl

theorem refuse_of_asked (h : cache.start k a = (after, none)) :
    cache.refuse k a = (after, a.loss) := by
  obtain ⟨rfl, hv, rfl⟩ | ⟨v, rfl, hv, rfl⟩ := start_asks h
  · simp [refuse, hv, Action.loss]
  · simp [refuse, Std.ExtTreeMap.mem_iff_isSome_getElem?, hv, Action.loss]

/-- Without a store no key enters or leaves the cache. -/
theorem mem_refuse (cache : Cache) (k : Key) (a : Action) (key : Key) :
    key ∈ (cache.refuse k a).1 ↔ key ∈ cache := by
  cases a with
  | get =>
    simp only [refuse]
    split <;> rfl
  | put v =>
    simp only [refuse]
    split
    · rename_i hcached
      rw [Std.ExtTreeMap.mem_insert]
      constructor
      · rintro (hkey | hkey)
        · rw [← Std.LawfulEqCmp.eq_of_compare hkey]
          exact hcached
        · exact hkey
      · exact Or.inr
    · rfl
  | unsupported name => rfl

end Cache

/-- The cache of a client without a store when it has settled all its jobs, and the replies. -/
def Member.backlog (m : Member) : Cache × List (Job × ClientReply) :=
  let (last, replies) := m.cache.refuseAll m.inbox.entries
  (last, m.work.toList.map (fun w => (w.job, w.job.action.loss)) ++ replies)

/-- The replies of client `i`, in order. -/
def repliesOf (es : List Event) (i : Nat) : List (Job × ClientReply) :=
  es.filterMap fun e => match e with
    | .answered j job r => if j = i then some (job, r) else none
    | _ => none

theorem repliesOf_append (es es' : List Event) (i : Nat) :
    repliesOf (es ++ es') i = repliesOf es i ++ repliesOf es' i :=
  List.filterMap_append

theorem Member.backlog_of_idle {m : Member} (hidle : m.work = none)
    (hentries : m.inbox.entries = []) : m.backlog = (m.cache, []) := by
  rw [backlog, hidle, hentries]
  rfl

/-- `m'` is a member of a cluster without a store some time later: it has asked the store for
nothing, and while it runs the same keys are cached. -/
structure Member.Lingers (m m' : Member) : Prop where
  work : m'.work = none ∨ m'.work = m.work
  keys : m'.running = true → m.running = true ∧ ∀ k, k ∈ m'.cache ↔ k ∈ m.cache

namespace Member

variable {m m' m'' : Member}

theorem Lingers.of_same (hwork : m'.work = m.work) (hrun : m'.running = m.running)
    (hcache : m'.cache = m.cache) : m.Lingers m' :=
  ⟨Or.inr hwork, fun h => ⟨hrun ▸ h, fun k => by rw [hcache]⟩⟩

theorem Lingers.refl (m : Member) : m.Lingers m := .of_same rfl rfl rfl

theorem Lingers.trans (h : m.Lingers m') (h' : m'.Lingers m'') : m.Lingers m'' := by
  constructor
  · rcases h'.work with hidle | hsame
    · exact Or.inl hidle
    · rw [hsame]
      exact h.work
  · intro hrun
    obtain ⟨hrun', hkeys'⟩ := h'.keys hrun
    obtain ⟨hrun'', hkeys⟩ := h.keys hrun'
    exact ⟨hrun'', fun k => (hkeys' k).trans (hkeys k)⟩

theorem lingers_halt (m : Member) : m.Lingers m.halt := ⟨Or.inl rfl, nofun⟩

end Member

namespace Cluster

/-- The store has stopped, and whoever had asked it has been told so. -/
structure Deserted (s : Cluster) : Prop where
  stopped : s.keeper.running = false
  dropped : ∀ (i : Nat) m w, s.members[i]? = some m → m.work = some w → w.answer = .dropped

variable {s t u : Cluster} {e : Event} {es now : List Event} {i n : Nat} {m m' : Member}
  {job : Job} {r : ClientReply} {mv : Move}

/-! ## What the members do -/

/-- A member settles the first job of its backlog. -/
structure Settles (s : Cluster) (i : Nat) (m : Member) (job : Job) (r : ClientReply)
    (m' : Member) : Prop where
  member : s.members[i]? = some m
  running : m.running = true
  stays : m'.running = true
  idle : m'.work = none
  first : m.backlog = (m'.backlog.1, (job, r) :: m'.backlog.2)
  mem : job ∈ m.jobs

theorem Deserted.begin_cases (deserted : s.Deserted) (h : s.begin i = some (t, e)) :
    ∃ m job rest, s.members[i]? = some m ∧ m.running = true ∧ m.work = none ∧
      m.inbox.entries = job :: rest ∧ e = .answered i job (m.cache.refuse job.key job.action).2 ∧
      t = (s.onMember i fun _ => m.take (m.cache.refuse job.key job.action).1 rest).answer job
        (m.cache.refuse job.key job.action).2 := by
  obtain ⟨m, job, rest, cache, hm, hrun, hidle, hentries, hcases⟩ := Cluster.begin_cases h
  refine ⟨m, job, rest, hm, hrun, hidle, hentries, ?_⟩
  obtain ⟨r, hstart, rfl, rfl⟩ | ⟨_, hkeeper, _⟩ | ⟨hstart, _, last, r, hfinish, rfl, rfl⟩ := hcases
  · rw [Cache.refuse_of_start hstart]
    exact ⟨rfl, rfl⟩
  · rw [deserted.stopped] at hkeeper
    cases hkeeper
  · rw [Cache.finish_none] at hfinish
    obtain ⟨rfl, rfl⟩ := Prod.mk.inj hfinish
    rw [Cache.refuse_of_asked hstart]
    refine ⟨rfl, ?_⟩
    rw [Member.take, hidle]

theorem Deserted.fire_cases (deserted : s.Deserted) (onRecord : s.OnRecord)
    (h : s.fire mv = some (t, e)) :
    (∃ i m job r m', s.Settles i m job r m' ∧ t = (s.onMember i fun _ => m').answer job r ∧
      e = .answered i job r) ∨
    (∃ i m, s.members[i]? = some m ∧ m.backlog.2 = [] ∧ t = s.onMember i .halt ∧ e = .left i) ∨
    (∃ c, mv = .finish c ∧ s.finish c = some (t, e)) := by
  cases mv with
  | serve =>
    obtain ⟨hrun, _⟩ := serve_cases h
    rw [deserted.stopped] at hrun
    cases hrun
  | begin i =>
    obtain ⟨m, job, rest, hm, hrun, hidle, hentries, he, ht⟩ := deserted.begin_cases h
    refine Or.inl ⟨i, m, job, _, m.take (m.cache.refuse job.key job.action).1 rest,
      ⟨hm, hrun, hrun, hidle, ?_, ?_⟩, ht, he⟩
    · simp [Member.backlog, Member.take, hidle, hentries, Cache.refuseAll]
    · exact Member.mem_jobs.mpr (Or.inr (hentries ▸ List.mem_cons_self))
  | resume i =>
    obtain ⟨m, job, slot, answer, cache, r, hm, hwork, hanswer, hfinish, rfl, rfl⟩ :=
      resume_cases h
    obtain rfl : slot = .dropped := deserted.dropped i m _ hm hwork
    obtain rfl : none = answer := Option.some.inj hanswer
    rw [Cache.finish_none] at hfinish
    obtain ⟨rfl, rfl⟩ := Prod.mk.inj hfinish
    have hrun := (onRecord.workers i m _ hm hwork).1
    refine Or.inl ⟨i, m, job, _, { m with work := none },
      ⟨hm, hrun, hrun, rfl, ?_, ?_⟩, rfl, rfl⟩
    · simp [Member.backlog, hwork]
    · exact Member.mem_jobs.mpr (Or.inl ⟨_, hwork⟩)
  | leave i =>
    obtain ⟨m, hm, _, hidle, hentries, _, rfl, rfl⟩ := leave_cases h
    exact Or.inr (Or.inl ⟨i, m, hm, by rw [Member.backlog_of_idle hidle hentries], rfl, rfl⟩)
  | retire =>
    obtain ⟨hrun, _⟩ := retire_cases h
    rw [deserted.stopped] at hrun
    cases hrun
  | finish c => exact Or.inr (Or.inr ⟨c, rfl, h⟩)

/-! ## A deserted cluster stays so -/

theorem lingers_onMember {f : Member → Member}
    (hf : ∀ m, s.members[i]? = some m → m.Lingers (f m)) :
    List.Forall₂ Member.Lingers s.members (s.onMember i f).members :=
  forall₂_modify Member.Lingers.refl hf

theorem Deserted.lingers_fire (deserted : s.Deserted) (h : s.fire mv = some (t, e)) :
    t.keeper.running = s.keeper.running ∧ List.Forall₂ Member.Lingers s.members t.members := by
  have hstopped : s.keeper.running ≠ true := by simp [deserted.stopped]
  cases mv with
  | serve => exact absurd (serve_cases h).1 hstopped
  | begin i =>
    obtain ⟨m, job, rest, hm, hrun, hidle, _, _, rfl⟩ := deserted.begin_cases h
    refine ⟨rfl, lingers_onMember fun n hn => ?_⟩
    obtain rfl := Option.some.inj (hm.symm.trans hn)
    exact ⟨Or.inl hidle, fun _ => ⟨hrun, Cache.mem_refuse m.cache job.key job.action⟩⟩
  | resume i =>
    obtain ⟨m, job, slot, answer, cache, r, hm, hwork, hanswer, hfinish, rfl, _⟩ := resume_cases h
    obtain rfl : slot = .dropped := deserted.dropped i m _ hm hwork
    obtain rfl : none = answer := Option.some.inj hanswer
    rw [Cache.finish_none] at hfinish
    obtain ⟨rfl, _⟩ := Prod.mk.inj hfinish
    refine ⟨rfl, lingers_onMember fun n hn => ?_⟩
    obtain rfl := Option.some.inj (hm.symm.trans hn)
    exact ⟨Or.inl rfl, fun hrun => ⟨hrun, fun k => Iff.rfl⟩⟩
  | leave i =>
    obtain ⟨_, _, _, _, _, _, rfl, _⟩ := leave_cases h
    exact ⟨rfl, lingers_onMember fun m _ => m.lingers_halt⟩
  | retire => exact absurd (retire_cases h).1 hstopped
  | finish c =>
    obtain ⟨_, _, _, _, rfl, _⟩ := finish_cases h
    exact ⟨rfl, List.forall₂_same.mpr fun m _ => .refl m⟩

theorem Deserted.lingers_call {target : Target} {k : Key} (deserted : s.Deserted)
    (h : s.call target k = some t) :
    t.keeper.running = s.keeper.running ∧ List.Forall₂ Member.Lingers s.members t.members := by
  have hstopped : s.keeper.running ≠ true := by simp [deserted.stopped]
  have hstay : List.Forall₂ Member.Lingers s.members s.members :=
    List.forall₂_same.mpr fun m _ => .refl m
  cases target with
  | client i act manner =>
    obtain ⟨m, _, _, ⟨_, rfl⟩ | ⟨_, rfl⟩⟩ := call_client_cases h
    · exact ⟨rfl, lingers_onMember (s := s.enter _ _ _) fun m _ => .of_same rfl rfl rfl⟩
    · exact ⟨rfl, hstay⟩
  | store op =>
    obtain ⟨_, ⟨hrun, _⟩ | ⟨_, rfl⟩⟩ := call_store_cases h
    · exact absurd hrun hstopped
    · exact ⟨rfl, hstay⟩
  | snapshot =>
    obtain ⟨_, ⟨hrun, _⟩ | ⟨_, rfl⟩⟩ := call_snapshot_cases h
    · exact absurd hrun hstopped
    · exact ⟨rfl, hstay⟩

theorem Deserted.lingers_perform {a : Act} (deserted : s.Deserted) (h : s.perform a = some t) :
    t.keeper.running = s.keeper.running ∧ List.Forall₂ Member.Lingers s.members t.members := by
  have hstay : List.Forall₂ Member.Lingers s.members s.members :=
    List.forall₂_same.mpr fun m _ => .refl m
  cases a with
  | call target k => exact deserted.lingers_call h
  | take c =>
    obtain ⟨f, rfl⟩ := take_cases h
    exact ⟨rfl, hstay⟩
  | wait c =>
    obtain ⟨f, rfl⟩ := wait_cases h
    exact ⟨rfl, hstay⟩
  | cancel c =>
    obtain rfl := Option.some.inj h
    obtain heq | ⟨f, ⟨j, heq⟩ | heq⟩ := cancel_cases s c
    · rw [heq]
      exact ⟨rfl, hstay⟩
    · rw [heq]
      exact ⟨rfl, lingers_onMember fun m _ => .of_same rfl rfl rfl⟩
    · rw [heq]
      exact ⟨rfl, hstay⟩
  | closeClient i =>
    obtain rfl := closeClient_cases h
    exact ⟨rfl, lingers_onMember fun m _ => .of_same rfl rfl rfl⟩
  | closeStore =>
    obtain rfl := Option.some.inj h
    exact ⟨rfl, hstay⟩
  | killClient i =>
    obtain ⟨m, _, ⟨_, hkeeper, hmembers⟩ | ⟨_, rfl⟩⟩ := killClient_cases h
    · rw [hkeeper, hmembers]
      exact ⟨rfl, lingers_onMember fun m _ => m.lingers_halt⟩
    · exact ⟨rfl, hstay⟩
  | killStore =>
    obtain rfl := Option.some.inj h
    rw [killStore, deserted.stopped]
    exact ⟨deserted.stopped, hstay⟩

theorem Deserted.lingers_step {l : Label} (deserted : s.Deserted) (h : s.step l = some (t, now)) :
    t.keeper.running = s.keeper.running ∧ List.Forall₂ Member.Lingers s.members t.members := by
  cases l with
  | act a => exact deserted.lingers_perform (step_act h).1
  | move mv =>
    obtain ⟨e, hfire, _⟩ := step_move h
    exact deserted.lingers_fire hfire

/-- Nobody can take up work with a store that has stopped. -/
theorem Deserted.step {l : Label} (deserted : s.Deserted) (h : s.step l = some (t, now)) :
    t.Deserted := by
  obtain ⟨hkeeper, hlinger⟩ := deserted.lingers_step h
  refine ⟨hkeeper.trans deserted.stopped, fun i m' w hm' hw => ?_⟩
  obtain ⟨m, hm, hidle | hsame, _⟩ := before_of_forall₂ hlinger hm'
  · rw [hidle] at hw
    cases hw
  · exact deserted.dropped i m w hm (hsame ▸ hw)

theorem Deserted.run {labels : List Label} (deserted : s.Deserted)
    (h : s.run labels = some (t, es)) :
    t.Deserted ∧ List.Forall₂ Member.Lingers s.members t.members := by
  have hstay : List.Forall₂ Member.Lingers s.members s.members :=
    List.forall₂_same.mpr fun m _ => .refl m
  refine run_induction (A := fun _ => True)
    (P := fun u _ => u.Deserted ∧ List.Forall₂ Member.Lingers s.members u.members)
    ?_ (fun _ _ => trivial) [] ⟨deserted, hstay⟩ h
  rintro u past l v now _ ⟨hdeserted, hlinger⟩ hstep
  refine ⟨hdeserted.step hstep, ?_⟩
  exact forall₂_trans (fun _ _ _ hab hbc => hab.trans hbc) hlinger (hdeserted.lingers_step hstep).2

/-! ## How it begins -/

theorem killStore_of_atRest (hrun : s.keeper.running = true) (hrest : s.atRest = true) :
    s.killStore = { s.dropWaiters with keeper := s.keeper.halt } := by
  have hentries := entries_of_serve hrun (fire_of_atRest hrest .serve)
  rw [killStore, if_pos hrun]
  simp only [Inbox.queued, Inbox.blocked, hentries, List.take_nil, List.drop_nil, List.foldl_nil,
    dropWaiters_eq_tell, keeper_tell]

theorem OnRecord.slot_of_atRest (onRecord : s.OnRecord) (hrest : s.atRest = true)
    (hm : s.members[i]? = some m) {w : Work} (hwork : m.work = some w) : w = ⟨w.job, .empty⟩ := by
  obtain ⟨job, slot⟩ := w
  rcases slot_of_resume hm hwork (fire_of_atRest hrest (.resume i)) with rfl | rfl
  · rfl
  · exact absurd rfl (onRecord.workers i m _ hm hwork).2

theorem deserted_killStore (onRecord : s.OnRecord) (hrest : s.atRest = true) :
    s.killStore.Deserted := by
  cases hrun : s.keeper.running with
  | false =>
    have hsame : s.killStore = s := by rw [killStore, hrun]; rfl
    rw [hsame]
    refine ⟨hrun, fun i m w hm hwork => ?_⟩
    -- a store that has stopped minds nobody, so nobody can be waiting for it
    have hexpects : s.Expects (.client i) :=
      ⟨m, w.job, hm, by rw [hwork, ← onRecord.slot_of_atRest hrest hm hwork]⟩
    have hminds := (onRecord.minded _ hexpects).1
    rw [hrun] at hminds
    cases hminds
  | true =>
    have hkilled := killStore_of_atRest hrun hrest
    refine ⟨by rw [hkilled]; rfl, fun i m' w' hm' hwork' => ?_⟩
    have hunexpected := onRecord.not_expects_killed hrun (x := .client i)
    have hlater := hm'
    rw [hkilled, dropWaiters_eq_tell, members_tell] at hm'
    obtain ⟨m, hm, rfl⟩ := Option.map_eq_some_iff.mp hm'
    obtain ⟨w, hwork, rfl⟩ := Option.map_eq_some_iff.mp hwork'
    have hslot := onRecord.slot_of_atRest hrest hm hwork
    cases hf : (s.keeper.store.waiters.toList.map
        fun w => (w.2, Fate.discarded)).lookup (.client i) with
    | none =>
      refine absurd ⟨_, w.job, hlater, ?_⟩ hunexpected
      rw [hwork', hf, hslot]
      rfl
    | some f =>
      rw [fate_of_lookup hf, hslot]
      rfl

end Cluster

end Custody
