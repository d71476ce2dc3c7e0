import Custody.Proofs.Cluster.Frame

/-!
# What a move and an act can do

Each move and each act, read backwards: the condition under which it is possible, the cluster
after it and the event it reports. Later proofs use these and open no move again.
-/

namespace Custody

/-- What a member makes of its receiving end: nothing while it is empty, else an answer or none. -/
def Slot.answer? {α : Type} : Slot α → Option (Option α)
  | full a => some (some a)
  | dropped => some none
  | _ => none

/-- A member that has taken the first job out of its inbox. -/
def Member.take (m : Member) (cache : Cache) (rest : List Job) : Member :=
  { m with cache, inbox := { m.inbox with entries := rest } }

namespace Cluster

variable {s t : Cluster} {e : Event} {i : Nat}

/-- The cluster whose store has taken the first message out of its inbox. -/
def stored (s : Cluster) (rest : List Command) (store : Store Requester) : Cluster :=
  { s with keeper := { s.keeper with inbox := { s.keeper.inbox with entries := rest }, store } }

@[simp] theorem members_stored (s : Cluster) (rest : List Command) (store : Store Requester) :
    (s.stored rest store).members = s.members := rfl

@[simp] theorem calls_stored (s : Cluster) (rest : List Command) (store : Store Requester) :
    (s.stored rest store).calls = s.calls := rfl

/-- The caller of a job hears how it ended. -/
def answer (s : Cluster) (job : Job) (r : ClientReply) : Cluster :=
  s.onCall job.call (·.receive (.full (.client r)))

@[simp] theorem keeper_answer (s : Cluster) (job : Job) (r : ClientReply) :
    (s.answer job r).keeper = s.keeper := rfl

@[simp] theorem members_answer (s : Cluster) (job : Job) (r : ClientReply) :
    (s.answer job r).members = s.members := rfl

theorem serve_cases (h : s.serve = some (t, e)) :
    s.keeper.running = true ∧ ∃ rest,
      (∃ r, s.keeper.inbox.entries = .request r :: rest ∧
        t = (s.stored rest (s.keeper.store.handle s.isPresent r).1).tell
          ((s.keeper.store.handle s.isPresent r).2.fates r.who) ∧
        e = .served r (s.keeper.store.handle s.isPresent r).2) ∨
      (∃ c, s.keeper.inbox.entries = .snapshot c :: rest ∧
        t = (s.stored rest s.keeper.store).onCall c
          (·.receive (.full (.snapshot s.keeper.store.snapshot))) ∧
        e = .observed c s.keeper.store.snapshot) := by
  simp only [serve] at h
  split at h
  · rename_i command rest hrun hentries
    refine ⟨hrun, rest, ?_⟩
    cases command with
    | request r =>
      obtain ⟨rfl, rfl⟩ := Prod.mk.inj (Option.some.inj h)
      exact Or.inl ⟨r, hentries, rfl, rfl⟩
    | snapshot c =>
      obtain ⟨rfl, rfl⟩ := Prod.mk.inj (Option.some.inj h)
      exact Or.inr ⟨c, hentries, rfl, rfl⟩
  · cases h

theorem begin_cases (h : s.begin i = some (t, e)) :
    ∃ m job rest cache, s.members[i]? = some m ∧ m.running = true ∧ m.work = none ∧
      m.inbox.entries = job :: rest ∧
      ((∃ r, m.cache.start job.key job.action = (cache, some r) ∧
          t = (s.onMember i fun _ => m.take cache rest).answer job r ∧ e = .answered i job r) ∨
        (m.cache.start job.key job.action = (cache, none) ∧ s.keeper.running = true ∧
          t = (s.onMember i fun _ => { m.take cache rest with work := some ⟨job, .empty⟩ }).send
            (.request ⟨job.action.operation, job.key, .client i⟩) ∧ e = .asked i job) ∨
        (m.cache.start job.key job.action = (cache, none) ∧ s.keeper.running = false ∧
          ∃ last r, cache.finish job.key job.action none = (last, r) ∧
            t = (s.onMember i fun _ => { m.take last rest with work := none }).answer job r ∧
            e = .answered i job r)) := by
  obtain ⟨m, hm, h⟩ := Option.bind_eq_some_iff.mp h
  split at h
  · rename_i job rest hrun hwork hentries
    cases hstart : m.cache.start job.key job.action with
    | mk cache reply =>
      refine ⟨m, job, rest, cache, hm, hrun, hwork, hentries, ?_⟩
      rw [hstart] at h
      cases reply with
      | some r =>
        obtain ⟨rfl, rfl⟩ := Prod.mk.inj (Option.some.inj h)
        exact Or.inl ⟨r, hstart, rfl, rfl⟩
      | none =>
        right
        dsimp only at h
        split at h
        · rename_i hkeeper
          obtain ⟨rfl, rfl⟩ := Prod.mk.inj (Option.some.inj h)
          exact Or.inl ⟨hstart, hkeeper, rfl, rfl⟩
        · rename_i hkeeper
          obtain ⟨rfl, rfl⟩ := Prod.mk.inj (Option.some.inj h)
          exact Or.inr ⟨hstart, by simpa using hkeeper, _, _, rfl, rfl, rfl⟩
  · cases h

theorem resume_cases (h : s.resume i = some (t, e)) :
    ∃ m job slot answer cache r, s.members[i]? = some m ∧ m.work = some ⟨job, slot⟩ ∧
      slot.answer? = some answer ∧ m.cache.finish job.key job.action answer = (cache, r) ∧
      t = (s.onMember i fun _ => { m with cache, work := none }).answer job r ∧
      e = .answered i job r := by
  obtain ⟨m, hm, h⟩ := Option.bind_eq_some_iff.mp h
  split at h
  · rename_i job r hwork
    obtain ⟨rfl, rfl⟩ := Prod.mk.inj (Option.some.inj h)
    exact ⟨m, job, .full r, some r, _, _, hm, hwork, rfl, rfl, rfl, rfl⟩
  · rename_i job hwork
    obtain ⟨rfl, rfl⟩ := Prod.mk.inj (Option.some.inj h)
    exact ⟨m, job, .dropped, none, _, _, hm, hwork, rfl, rfl, rfl, rfl⟩
  · cases h

theorem leave_cases (h : s.leave i = some (t, e)) :
    ∃ m, s.members[i]? = some m ∧ m.running = true ∧ m.work = none ∧ m.inbox.entries = [] ∧
      s.reaches i m = false ∧ t = s.onMember i .halt ∧ e = .left i := by
  obtain ⟨m, hm, h⟩ := Option.bind_eq_some_iff.mp h
  split at h
  · rename_i hcond
    simp only [Bool.and_eq_true, Option.isNone_iff_eq_none, List.isEmpty_iff,
      Bool.not_eq_true'] at hcond
    obtain ⟨rfl, rfl⟩ := Prod.mk.inj (Option.some.inj h)
    exact ⟨m, hm, hcond.1.1.1, hcond.1.1.2, hcond.1.2, hcond.2, rfl, rfl⟩
  · cases h

theorem dropWaiters_eq_tell (s : Cluster) :
    s.dropWaiters = s.tell (s.keeper.store.waiters.toList.map fun w => (w.2, .discarded)) := by
  simp only [dropWaiters, tell, List.foldl_map]
  rfl

/-- Only those who are parked are told. -/
theorem waiter_of_lookup {x : Requester} {f : Fate} (h : (s.keeper.store.waiters.toList.map
    fun w => (w.2, Fate.discarded)).lookup x = some f) :
    ∃ k, s.keeper.store.waiter k = some x := by
  obtain ⟨early, late, hsplit, _⟩ := List.lookup_eq_some_iff.mp h
  have hmem : (x, f) ∈ s.keeper.store.waiters.toList.map fun w => (w.2, Fate.discarded) := by
    simp [hsplit]
  obtain ⟨⟨k, y⟩, hwaits, heq⟩ := List.mem_map.mp hmem
  obtain ⟨rfl, _⟩ := Prod.mk.inj heq
  exact ⟨k, Std.ExtTreeMap.mem_toList_iff_getElem?_eq_some.mp hwaits⟩

/-- All that a store that stops has to say is that no answer will come. -/
theorem fate_of_lookup {l : List (Key × Requester)} {x : Requester} {f : Fate}
    (h : (l.map fun w => (w.2, Fate.discarded)).lookup x = some f) : f = .discarded := by
  induction l with
  | nil => cases h
  | cons w rest ih =>
    rw [List.map_cons, List.lookup_cons] at h
    split at h
    · exact (Option.some.inj h).symm
    · exact ih h

theorem retire_cases (h : s.retire = some (t, e)) :
    s.keeper.running = true ∧ s.keeper.inbox.entries = [] ∧ s.reachesStore = false ∧
      t = { s.dropWaiters with keeper := s.keeper.halt } ∧ e = .retired := by
  simp only [retire] at h
  split at h
  · rename_i hcond
    simp only [Bool.and_eq_true, List.isEmpty_iff, Bool.not_eq_true'] at hcond
    obtain ⟨rfl, rfl⟩ := Prod.mk.inj (Option.some.inj h)
    exact ⟨hcond.1.1, hcond.1.2, hcond.2, rfl, rfl⟩
  · cases h

theorem finish_cases {id : Nat} (h : s.finish id = some (t, e)) :
    ∃ c o, s.calls[id]? = some c ∧ s.outcome? c = some o ∧
      t = (s.onCall id fun c => { c with status := .ended o }) ∧ e = .ended id o := by
  obtain ⟨c, hc, h⟩ := Option.bind_eq_some_iff.mp h
  obtain ⟨o, ho, h⟩ := Option.bind_eq_some_iff.mp h
  obtain ⟨rfl, rfl⟩ := Prod.mk.inj (Option.some.inj h)
  exact ⟨c, o, hc, ho, rfl, rfl⟩

/-! ## Acts -/

theorem call_client_cases {a : Action} {manner : Manner} {k : Key}
    (h : s.call (.client i a manner) k = some t) :
    ∃ m, s.members[i]? = some m ∧ m.handle = true ∧
      ((m.running = true ∧
          t = (s.enter (.client i a manner) k
              (.pending (Target.client i a manner).isHeld .empty)).onMember i
            fun m => { m with inbox := m.inbox.push ⟨s.calls.length, a, k⟩ }) ∨
        (m.running = false ∧ t = s.enter (.client i a manner) k
          (.ended (.failed (.failure (.clientUnavailable m.name)))))) := by
  simp only [call] at h
  split at h
  · cases h
  · rename_i m hm
    refine ⟨m, hm, ?_⟩
    split at h
    · cases h
    · rename_i hhandle
      refine ⟨by simpa using hhandle, ?_⟩
      split at h
      · rename_i hrun
        exact Or.inl ⟨hrun, (Option.some.inj h).symm⟩
      · rename_i hrun
        exact Or.inr ⟨by simpa using hrun, (Option.some.inj h).symm⟩

theorem call_store_cases {op : Operation} {k : Key} (h : s.call (.store op) k = some t) :
    s.keeper.handle = true ∧
      ((s.keeper.running = true ∧
          t = (s.enter (.store op) k (.pending false .empty)).send
            (.request ⟨op, k, .caller s.calls.length⟩)) ∨
        (s.keeper.running = false ∧
          t = s.enter (.store op) k (.ended (.failed (.failure .storeUnavailable))))) := by
  simp only [call] at h
  split at h
  · cases h
  · rename_i hhandle
    refine ⟨by simpa using hhandle, ?_⟩
    split at h
    · rename_i hrun
      exact Or.inl ⟨hrun, (Option.some.inj h).symm⟩
    · rename_i hrun
      exact Or.inr ⟨by simpa using hrun, (Option.some.inj h).symm⟩

theorem call_snapshot_cases {k : Key} (h : s.call .snapshot k = some t) :
    s.keeper.handle = true ∧
      ((s.keeper.running = true ∧
          t = (s.enter .snapshot k (.pending false .empty)).send (.snapshot s.calls.length)) ∨
        (s.keeper.running = false ∧
          t = s.enter .snapshot k (.ended (.failed .snapshotNotSent)))) := by
  simp only [call] at h
  split at h
  · cases h
  · rename_i hhandle
    refine ⟨by simpa using hhandle, ?_⟩
    split at h
    · rename_i hrun
      exact Or.inl ⟨hrun, (Option.some.inj h).symm⟩
    · rename_i hrun
      exact Or.inr ⟨by simpa using hrun, (Option.some.inj h).symm⟩

/-- A look at a held call finds the reply, or that none will come, or nothing. -/
theorem take_held_cases {id : Nat} (h : s.take id = some t) : ∃ c, s.calls[id]? = some c ∧
    ((∃ a, c.status = .pending true (.full a) ∧
        t = s.onCall id fun c => { c with status := .taken a }) ∨
      (c.status = .pending true .dropped ∧
        t = s.onCall id fun c => { c with status := .pending true .spent }) ∨ t = s) := by
  obtain ⟨c, hc, h⟩ := Option.bind_eq_some_iff.mp h
  refine ⟨c, hc, ?_⟩
  split at h
  · rename_i a hstatus
    exact Or.inl ⟨a, hstatus, (Option.some.inj h).symm⟩
  · rename_i hstatus
    exact Or.inr (Or.inl ⟨hstatus, (Option.some.inj h).symm⟩)
  · exact Or.inr (Or.inr (Option.some.inj h).symm)
  · cases h

/-- It concerns that call only. -/
theorem take_cases {id : Nat} (h : s.take id = some t) : ∃ f, t = s.onCall id f := by
  obtain ⟨_, _, ⟨_, _, rfl⟩ | ⟨_, rfl⟩ | rfl⟩ := take_held_cases h
  · exact ⟨_, rfl⟩
  · exact ⟨_, rfl⟩
  · refine ⟨fun c => c, ?_⟩
    have hsame : t.calls.modify id (fun c => c) = t.calls := List.modify_id id t.calls
    rw [onCall, hsame]

theorem wait_held_cases {id : Nat} (h : s.wait id = some t) : ∃ c slot, s.calls[id]? = some c ∧
    c.status = .pending true slot ∧
      t = s.onCall id fun c => { c with status := .pending false slot } := by
  obtain ⟨c, hc, h⟩ := Option.bind_eq_some_iff.mp h
  split at h
  · rename_i slot hstatus
    exact ⟨c, slot, hc, hstatus, (Option.some.inj h).symm⟩
  · cases h

theorem wait_cases {id : Nat} (h : s.wait id = some t) : ∃ f, t = s.onCall id f := by
  obtain ⟨_, _, _, _, rfl⟩ := wait_held_cases h
  exact ⟨_, rfl⟩

/-- A call that has come to an end is not given up any more. -/
theorem cancel_target_cases (s : Cluster) (id : Nat) :
    s.cancel id = s ∨ ∃ c, s.calls[id]? = some c ∧ c.isPending = true ∧
      ((∃ i a manner, c.target = .client i a manner ∧ s.cancel id =
          (s.withdrawJob i id).onCall id fun c => { c with status := .cancelled }) ∨
        ((∀ i a manner, c.target ≠ .client i a manner) ∧ s.cancel id =
          (s.withdraw (.caller id)).onCall id fun c => { c with status := .cancelled })) := by
  simp only [cancel]
  split
  · exact Or.inl rfl
  · rename_i c hc
    split
    · rename_i hpending
      refine Or.inr ⟨c, hc, hpending, ?_⟩
      cases htarget : c.target with
      | client i a manner => exact Or.inl ⟨i, a, manner, rfl, rfl⟩
      | store op => exact Or.inr ⟨by simp, rfl⟩
      | snapshot => exact Or.inr ⟨by simp, rfl⟩
    · exact Or.inl rfl

theorem cancel_cases (s : Cluster) (id : Nat) :
    s.cancel id = s ∨ ∃ f, (∃ j, s.cancel id = (s.withdrawJob j id).onCall id f) ∨
      s.cancel id = (s.withdraw (.caller id)).onCall id f := by
  obtain heq | ⟨_, _, _, ⟨i, _, _, _, heq⟩ | ⟨_, heq⟩⟩ := cancel_target_cases s id
  · exact Or.inl heq
  · exact Or.inr ⟨_, Or.inl ⟨i, heq⟩⟩
  · exact Or.inr ⟨_, Or.inr heq⟩

theorem closeClient_cases (h : s.closeClient i = some t) :
    t = s.onMember i fun m => { m with handle := false } := by
  simp only [closeClient] at h
  split at h
  · exact (Option.some.inj h).symm
  · cases h

/-- What changes only calls, one after the other, leaves the store and the members alone. -/
theorem foldl_onCall {α : Type} (id : α → Nat) (f : α → Call → Call) (l : List α) (s : Cluster) :
    (l.foldl (fun s a => s.onCall (id a) (f a)) s).keeper = s.keeper ∧
      (l.foldl (fun s a => s.onCall (id a) (f a)) s).members = s.members := by
  induction l generalizing s with
  | nil => exact ⟨rfl, rfl⟩
  | cons a rest ih => exact ih (s.onCall (id a) (f a))

theorem killClient_cases (h : s.killClient i = some t) :
    ∃ m, s.members[i]? = some m ∧
      ((m.running = true ∧ t.keeper = (s.withdraw (.client i)).keeper ∧
          t.members = (s.onMember i .halt).members) ∨
        (m.running = false ∧ t = s)) := by
  obtain ⟨m, hm, h⟩ := Option.bind_eq_some_iff.mp h
  refine ⟨m, hm, ?_⟩
  split at h
  · rename_i hrun
    left
    obtain rfl := Option.some.inj h
    have hlost := foldl_onCall Job.call (fun _ => (·.receive .dropped))
      (m.work.toList.map (·.job) ++ m.inbox.queued) s
    have hrefused := foldl_onCall Job.call
      (fun _ => (·.refuse (.failure (.clientUnavailable m.name)))) m.inbox.blocked
      ((m.work.toList.map (·.job) ++ m.inbox.queued).foldl
        (fun s job => s.onCall job.call (·.receive .dropped)) s)
    refine ⟨hrun, ?_, ?_⟩
    · simp only [withdraw, onMember, hrefused.1, hlost.1]
    · simp only [withdraw, onMember, hrefused.2, hlost.2]
  · rename_i hrun
    exact Or.inr ⟨by simpa using hrun, (Option.some.inj h).symm⟩

end Cluster

end Custody
