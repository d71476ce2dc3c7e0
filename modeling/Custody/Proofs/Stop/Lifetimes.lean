import Custody.Proofs.Calls.Endings
import Custody.Proofs.Order.Lane
import Custody.Proofs.Stop.Steps

/-!
# How long actors live

While no actor is killed, a client at rest runs as long as its handle is there or it has an action
that it has not finished, and the store runs as long as its handle is there, or a client runs, or
somebody calls it directly. A caller that waits for a client keeps it alive only through the action
it waits for, and one that has gone away keeps nobody alive. So whoever is still parked when the
store stops has gone away.
-/

namespace Custody

namespace Member

/-- The client has the action in hand or in its queue, or the sender is still outside. -/
def Unfinished (m : Member) (job : Job) : Prop :=
  job ∈ m.current ∨ job ∈ m.inbox.queued ∨ job ∈ m.inbox.blocked

theorem entries_split (m : Member) : m.inbox.entries = m.inbox.queued ++ m.inbox.blocked :=
  (List.take_append_drop _ _).symm

theorem unfinished_iff {m : Member} {job : Job} : m.Unfinished job ↔ job ∈ m.jobs := by
  rw [m.jobs_eq, m.entries_split, List.mem_append, List.mem_append]
  exact Iff.rfl

end Member

namespace Cluster

variable {setup : Setup} {s t : Cluster} {l : Label} {labels : List Label} {es now : List Event}
  {i c : Nat} {m : Member} {call : Call}

/-! ## Held calls -/

/-- Only who has dispatched an action and kept the receipt holds a call. -/
theorem isHeld_of_held {slot : Slot Answer} (h : (start setup).run labels = some (s, es))
    (hcall : s.calls[c]? = some call) (hheld : call.status = .pending true slot) :
    call.target.isHeld = true := by
  refine history_induction (P := fun _ s _ => ∀ (c : Nat) call slot, s.calls[c]? = some call →
    call.status = .pending true slot → call.target.isHeld = true) ?_ ?_ h c call slot hcall hheld
  · intro c call slot hcall
    simp [start] at hcall
  · intro past u before l t now _ ih hstep c call' slot hcall' hheld
    obtain ⟨target, k, status, _, hcalls, hstatus⟩ | ⟨_, hages⟩ := ages_step hstep
    · rw [hcalls] at hcall'
      obtain hcall | ⟨_, rfl⟩ := entry_snoc hcall'
      · exact ih c call' slot hcall hheld
      · exact (hstatus true slot hheld).symm
    · obtain ⟨call, hcall, hages⟩ := before_of_forall₂ hages hcall'
      obtain ⟨slot', hbefore⟩ := hages.held slot hheld
      rw [hages.target]
      exact ih c call slot' hcall hbefore

/-- At rest nothing has been heard of a call whose caller waits. -/
theorem open_of_atRest (h : (start setup).run labels = some (s, es)) (hrest : s.atRest = true)
    (hcall : s.calls[c]? = some call) (hpending : call.isPending = true)
    (hheld : call.target.isHeld = false) : call.status = .pending false .empty := by
  cases hstatus : call.status with
  | pending held slot =>
    cases held with
    | true =>
      rw [isHeld_of_held h hcall hstatus] at hheld
      cases hheld
    | false => rw [empty_of_atRest hrest hcall hstatus]
  | _ => simp [Call.isPending, hstatus, Status.isPending] at hpending

/-! ## Clients -/

/-- Somebody who waits for client `i` waits for an action that it has not finished. -/
theorem Kept.job_of_attached (kept : s.Kept es) (h : (start setup).run labels = some (s, es))
    (hrest : s.atRest = true) (hm : s.members[i]? = some m) (hcall : call ∈ s.calls)
    (hattached : call.attachedTo i = true) : ∃ job, job ∈ m.jobs := by
  obtain ⟨c, hcall⟩ := List.mem_iff_getElem?.mp hcall
  unfold Call.attachedTo at hattached
  split at hattached
  · rename_i j act htarget
    simp only [Bool.and_eq_true, beq_iff_eq] at hattached
    obtain ⟨hpending, rfl⟩ := hattached
    have hopen := open_of_atRest h hrest hcall hpending (by rw [htarget]; rfl)
    cases kept.booked.accounted c call hcall with
    | gone hgone => cases hopen.symm.trans hgone
    | underway _ hcarries =>
      rw [Carries, htarget] at hcarries
      obtain ⟨m', hm', _, hjob⟩ := hcarries
      obtain rfl := Option.some.inj (hm.symm.trans hm')
      exact ⟨_, hjob⟩
    | answered a hfull =>
      rw [hopen] at hfull
      cases hfull
    | lost op hop => cases htarget.symm.trans hop
  · cases hattached

theorem Kept.running_iff (kept : s.Kept es) (h : (start setup).run labels = some (s, es))
    (hrest : s.atRest = true) (hm : s.members[i]? = some m) :
    m.running = true ↔ m.handle = true ∨ ∃ job, m.Unfinished job := by
  simp only [Member.unfinished_iff]
  constructor
  · intro hrun
    have hstays : s.leave i = none := fire_of_atRest hrest (.leave i)
    by_contra hnobody
    obtain ⟨hclosed, hnothing⟩ := not_or.mp hnobody
    have hjobs : m.jobs = [] := List.eq_nil_iff_forall_not_mem.mpr fun job hjob =>
      hnothing ⟨job, hjob⟩
    obtain ⟨hcurrent, hentries⟩ := List.append_eq_nil_iff.mp (m.jobs_eq ▸ hjobs)
    have hidle : m.work = none := by
      cases hwork : m.work with
      | none => rfl
      | some w => simp [Member.current, hwork] at hcurrent
    -- nobody is left who could call it, so it could leave
    have hreaches : s.reaches i m = false := by
      simp only [reaches, Bool.or_eq_false_iff, List.any_eq_false]
      exact ⟨by simpa using hclosed, fun call hcall hattached =>
        hnothing (kept.job_of_attached h hrest hm hcall hattached)⟩
    simp [leave, hm, hrun, hidle, hentries, hreaches] at hstays
  · rintro (hhandle | ⟨job, hjob⟩)
    · exact kept.staffed.member i m hm hhandle
    · by_contra hstopped
      obtain ⟨hidle, hentries⟩ := (inLine_run h hm).stopped (by simpa using hstopped)
      simp [Member.jobs, hidle, hentries] at hjob

/-! ## The store -/

theorem Kept.keeper_running_iff (kept : s.Kept es) (h : (start setup).run labels = some (s, es))
    (hrest : s.atRest = true) :
    s.keeper.running = true ↔ s.keeper.handle = true ∨
      (∃ m ∈ s.members, m.running = true) ∨ ∃ call ∈ s.calls, call.onStore = true := by
  have hreaches : s.reachesStore = true ↔ s.keeper.handle = true ∨
      (∃ m ∈ s.members, m.running = true) ∨ ∃ call ∈ s.calls, call.onStore = true := by
    simp only [reachesStore, Bool.or_eq_true, List.any_eq_true, or_assoc]
  constructor
  · intro hrun
    have hstays : s.retire = none := fire_of_atRest hrest .retire
    have hentries := entries_of_serve hrun (fire_of_atRest hrest .serve)
    refine hreaches.mp ?_
    by_contra hunreached
    simp [retire, hrun, hentries, hunreached] at hstays
  · rintro (hhandle | ⟨m, hm, hrun⟩ | ⟨call, hcall, hon⟩)
    · exact kept.staffed.keeper hhandle
    · obtain ⟨i, hi⟩ := List.mem_iff_getElem?.mp hm
      exact kept.keeper_of_running hi hrun
    · obtain ⟨c, hc⟩ := List.mem_iff_getElem?.mp hcall
      have hstore : call.target.AtStore := by
        intro i act manner htarget
        simp [Call.onStore, htarget] at hon
      have hheld : call.target.isHeld = false := by
        cases htarget : call.target with
        | client i act manner => exact absurd htarget (hstore i act manner)
        | _ => rfl
      have hpending : call.isPending = true := by
        cases htarget : call.target with
        | client i act manner => exact absurd htarget (hstore i act manner)
        | _ => simpa [Call.onStore, htarget] using hon
      have hopen := open_of_atRest h hrest hc hpending hheld
      exact ((onRecord_run (onRecord_start setup) h).minded (.caller c)
        ⟨call, hc, hstore, false, hopen⟩).1

/-- Unless it is killed, a store that stops does so of its own accord. -/
theorem running_step (gentle : l.Gentle) (h : s.step l = some (t, now)) :
    t.keeper.running = s.keeper.running ∨ l = .move .retire := by
  cases l with
  | move mv =>
    obtain ⟨e, hfire, _⟩ := step_move h
    cases mv with
    | retire => exact Or.inr rfl
    | serve =>
      obtain ⟨_, rest, ⟨r, _, rfl, _⟩ | ⟨c, _, rfl, _⟩⟩ := serve_cases hfire
      · left
        rw [keeper_tell]
        rfl
      · exact Or.inl rfl
    | begin i =>
      obtain ⟨_, _, _, _, _, _, _, _, ⟨_, _, rfl, _⟩ | ⟨_, _, rfl, _⟩ | ⟨_, _, _, _, _, rfl, _⟩⟩ :=
        begin_cases hfire
      · exact Or.inl rfl
      · exact Or.inl rfl
      · exact Or.inl rfl
    | resume i =>
      obtain ⟨_, _, _, _, _, _, _, _, _, _, rfl, _⟩ := resume_cases hfire
      exact Or.inl rfl
    | leave i =>
      obtain ⟨_, _, _, _, _, _, rfl, _⟩ := leave_cases hfire
      exact Or.inl rfl
    | finish c =>
      obtain ⟨_, _, _, _, rfl, _⟩ := finish_cases hfire
      exact Or.inl rfl
  | act a =>
    obtain ⟨hact, _⟩ := step_act h
    left
    cases a with
    | call target k =>
      cases target with
      | client j a manner =>
        obtain ⟨_, _, _, ⟨_, rfl⟩ | ⟨_, rfl⟩⟩ := call_client_cases hact
        · rfl
        · rfl
      | store op =>
        obtain ⟨_, ⟨_, rfl⟩ | ⟨_, rfl⟩⟩ := call_store_cases hact
        · rfl
        · rfl
      | snapshot =>
        obtain ⟨_, ⟨_, rfl⟩ | ⟨_, rfl⟩⟩ := call_snapshot_cases hact
        · rfl
        · rfl
    | take c =>
      obtain ⟨_, rfl⟩ := take_cases hact
      rfl
    | wait c =>
      obtain ⟨_, rfl⟩ := wait_cases hact
      rfl
    | cancel c =>
      obtain rfl := Option.some.inj hact
      obtain heq | ⟨_, ⟨_, heq⟩ | heq⟩ := cancel_cases s c
      · rw [heq]
      · rw [heq]
        rfl
      · rw [heq]
        rfl
    | closeClient j =>
      obtain rfl := closeClient_cases hact
      rfl
    | closeStore =>
      obtain rfl := Option.some.inj hact
      rfl
    | killClient j => exact absurd gentle id
    | killStore => exact absurd gentle id

/-! ## Lifetimes -/

/-- The first part says what is unfinished: what was issued to a client and got into its queue, or
still may, and has not been answered, whether or not its caller is still there. -/
theorem actor_lifetimes (gentle : ∀ l ∈ labels, l.Gentle)
    (h : (start setup).run labels = some (s, es)) :
    (∀ (i : Nat) m, s.members[i]? = some m →
      s.agenda i ((start setup).skipped i labels) =
        answeredBy es i ++ (m.current ++ m.inbox.queued ++ m.inbox.blocked)) ∧
    (s.atRest = true →
      (∀ (i : Nat) m, s.members[i]? = some m →
        (m.running = true ↔ m.handle = true ∨ ∃ job, m.Unfinished job)) ∧
      (s.keeper.running = true ↔ s.keeper.handle = true ∨
        (∃ m ∈ s.members, m.running = true) ∨ ∃ call ∈ s.calls, call.onStore = true)) ∧
    ∀ l t now, l.Gentle → s.step l = some (t, now) → s.keeper.running = true →
      t.keeper.running = false → ∀ k x, s.keeper.store.waiter k = some x →
        s.isPresent x = false ∧
          ∃ c call, x = .caller c ∧ s.calls[c]? = some call ∧ call.status = .cancelled := by
  have kept := kept_run (kept_start setup) gentle h
  rw [List.nil_append] at kept
  refine ⟨?_, fun hrest => ⟨?_, kept.keeper_running_iff h hrest⟩, ?_⟩
  · intro i m hm
    have line := inLine_run h hm
    have hunkilled : .act (.killClient i) ∉ labels := fun hkill => gentle _ hkill
    rw [← line.all (Or.inr hunkilled), line.begun (Or.inr hunkilled), m.entries_split]
    simp only [List.append_assoc]
  · exact fun i m hm => kept.running_iff h hrest hm
  · intro l t now gentle' hstep hrun hstopped k x hwaits
    obtain hsame | rfl := running_step gentle' hstep
    · cases hstopped.symm.trans (hsame.trans hrun)
    · obtain ⟨e, hretire, _⟩ := step_move hstep
      obtain ⟨_, _, hreaches, _, _⟩ := retire_cases hretire
      obtain ⟨c, call, rfl, hcall, hgone⟩ := kept.gone_of_unreached hreaches hwaits
      refine ⟨?_, c, call, rfl, hcall, hgone⟩
      simp [isPresent, hcall, Call.isPending, hgone, Status.isPending]

/-- A caller of the store owns a key, for which a client waits; then all handles are let go of, and
the client's caller goes away. -/
def orphanLabels : List Label :=
  [.act (.call (.store .read) "k"), .move .serve, .move (.finish 0),
    .act (.call (.client 0 .get .attached) "k"), .move (.begin 0), .move .serve,
    .act (.closeClient 1), .act .closeStore, .act (.closeClient 0), .act (.cancel 1),
    .move (.leave 1)]

/-- Two callers read the same key; the second one has to wait and goes away. -/
def abandonedLabels : List Label :=
  [.act (.call (.store .read) "k"), .move .serve, .move (.finish 0),
    .act (.call (.store .read) "k"), .move .serve, .act (.cancel 1), .act .closeStore]

/-- One client is kept alive by an action that nobody waits for, and keeps the store alive. A store
that only somebody gone away waits for stops. -/
theorem actor_lifetimes_of_orphans :
    (∃ s es m m', (start ⟨[⟨"a", 1⟩, ⟨"b", 1⟩], 1⟩).run orphanLabels = some (s, es) ∧
      s.members[0]? = some m ∧ s.members[1]? = some m' ∧ s.keeper.handle = false ∧
      m.handle = false ∧ m.Unfinished ⟨1, .get, "k"⟩ ∧ s.isPresent (.caller 1) = false ∧
      m.running = true ∧ m'.running = false ∧ s.keeper.running = true) ∧
    ∃ s es t now, (start ⟨[], 1⟩).run abandonedLabels = some (s, es) ∧
      s.step (.move .retire) = some (t, now) ∧ s.keeper.store.waiter "k" = some (.caller 1) ∧
      s.isPresent (.caller 1) = false := by
  constructor
  · have gentle : ∀ l ∈ orphanLabels, l.Gentle := by simp [orphanLabels, Label.Gentle]
    obtain ⟨s, es, m, m', h, hm, hm', hrest, hstore, hclosed, hwork, hgone, hidle⟩ :
        ∃ s es m m', (start ⟨[⟨"a", 1⟩, ⟨"b", 1⟩], 1⟩).run orphanLabels = some (s, es) ∧
          s.members[0]? = some m ∧ s.members[1]? = some m' ∧ s.atRest = true ∧
          s.keeper.handle = false ∧ m.handle = false ∧ ⟨1, .get, "k"⟩ ∈ m.current ∧
          s.isPresent (.caller 1) = false ∧ m'.handle = false ∧ m'.jobs = [] :=
      ⟨_, _, _, _, rfl, rfl, rfl, rfl, rfl, rfl, List.mem_singleton.mpr rfl, rfl, rfl, rfl⟩
    obtain ⟨hclients, hkeeper⟩ := (actor_lifetimes gentle h).2.1 hrest
    have hrun := (hclients 0 m hm).mpr (Or.inr ⟨_, Or.inl hwork⟩)
    refine ⟨s, es, m, m', h, hm, hm', hstore, hclosed, Or.inl hwork, hgone, hrun, ?_,
      hkeeper.mpr (Or.inr (Or.inl ⟨m, List.mem_of_getElem? hm, hrun⟩))⟩
    by_contra hstill
    rcases (hclients 1 m' hm').mp (by simpa using hstill) with hhandle | ⟨job, hjob⟩
    · rw [hidle.1] at hhandle
      cases hhandle
    · rw [Member.unfinished_iff, hidle.2] at hjob
      cases hjob
  · have gentle : ∀ l ∈ abandonedLabels, l.Gentle := by simp [abandonedLabels, Label.Gentle]
    obtain ⟨s, es, t, now, h, hstep, hrun, hstopped, hwaits⟩ : ∃ s es t now,
        (start ⟨[], 1⟩).run abandonedLabels = some (s, es) ∧
          s.step (.move .retire) = some (t, now) ∧ s.keeper.running = true ∧
          t.keeper.running = false ∧ s.keeper.store.waiter "k" = some (.caller 1) :=
      ⟨_, _, _, _, rfl, rfl, rfl, rfl, rfl⟩
    have hgone := (actor_lifetimes gentle h).2.2 (.move .retire) t now trivial hstep hrun hstopped
    exact ⟨s, es, t, now, h, hstep, hwaits, (hgone "k" _ hwaits).1⟩

end Cluster

end Custody
