import Custody.Proofs.Stop.Moves

/-!
# Every step keeps the record

Acts keep the record as moves do, deaths included: an actor that is killed leaves nobody behind who
still expects something of it. So the record is right after every run.
-/

namespace Custody

namespace Cluster

variable {s t u : Cluster} {e : Event} {es : List Event} {i n : Nat} {m : Member} {call : Call}
  {x : Requester} {job : Job}

/-! ## Acts -/

/-- A new call is on record if it has ended, or if its job or its message is there. -/
theorem OnRecord.entered {target : Target} {k : Key} {status : Status} (onRecord : s.OnRecord)
    (hcalls : t.calls = (s.enter target k status).calls)
    (hminded : ∀ x, t.Expects x → t.Minds x)
    (hlists : ∀ c, t.Lists (.caller c) →
      s.Lists (.caller c) ∨ (c = s.calls.length ∧ target.AtStore))
    (hwork : ∀ (i : Nat) m', t.members[i]? = some m' →
      ∃ m, s.members[i]? = some m ∧ m'.work = m.work ∧ m'.running = m.running)
    (hjobs : ∀ (i : Nat) m' job, t.members[i]? = some m' → job ∈ m'.jobs →
      (∃ m, s.members[i]? = some m ∧ job ∈ m.jobs) ∨ (job.call = s.calls.length ∧
        ∃ manner, target = .client i job.action manner ∧ k = job.key))
    (hkeep : ∀ (i : Nat) m job, s.members[i]? = some m → m.running = true → job ∈ m.jobs →
      ∃ m', t.members[i]? = some m' ∧ m'.running = true ∧ job ∈ m'.jobs)
    (hunheld : target.AtStore → ∀ slot, status ≠ .pending true slot)
    (hcarried : ∀ i act manner, target = .client i act manner → Call.Open ⟨target, k, status⟩ →
      ∃ m, t.members[i]? = some m ∧ m.running = true ∧ ⟨s.calls.length, act, k⟩ ∈ m.jobs) :
    t.OnRecord where
  minded := hminded
  callers := by
    intro c hlater
    rw [hcalls]
    rcases hlists c hlater with hbefore | ⟨rfl, hstore⟩
    · obtain ⟨call, hcall, hstore⟩ := onRecord.callers c hbefore
      exact ⟨call, enter_old hcall, hstore⟩
    · exact ⟨_, s.enter_new target k status, hstore⟩
  workers := by
    intro i m' w hm' hw
    obtain ⟨m, hm, hsame, hrun⟩ := hwork i m' hm'
    rw [hrun]
    exact onRecord.workers i m w hm (hsame ▸ hw)
  unheld := by
    intro c call slot hcall hstore
    rw [hcalls] at hcall
    rcases calls_enter hcall with hold | ⟨_, rfl⟩
    · exact onRecord.unheld c call slot hold hstore
    · exact hunheld hstore slot
  placed := by
    intro i m' job hm' hjob
    rw [hcalls]
    rcases hjobs i m' job hm' hjob with ⟨m, hm, hold⟩ | ⟨hc, manner, htarget, hkey⟩
    · obtain ⟨call, manner, hcall, htarget, hkey⟩ := onRecord.placed i m job hm hold
      exact ⟨call, manner, enter_old hcall, htarget, hkey⟩
    · exact ⟨_, manner, hc ▸ s.enter_new target k status, htarget, hkey⟩
  carried := by
    intro c call i act manner hcall htarget hopen
    rw [hcalls] at hcall
    rcases calls_enter hcall with hold | ⟨rfl, rfl⟩
    · obtain ⟨m, hm, hrun, hjob⟩ := onRecord.carried c call i act manner hold htarget hopen
      exact hkeep i m _ hm hrun hjob
    · exact hcarried i act manner htarget hopen

/-- The old calls expect what they did before, and so do the members. -/
theorem expects_enter {target : Target} {k : Key} {status : Status}
    (hx : (s.enter target k status).Expects x) :
    s.Expects x ∨
      (x = .caller s.calls.length ∧ target.AtStore ∧ Call.Open ⟨target, k, status⟩) := by
  cases x with
  | client i => exact Or.inl hx
  | caller c =>
    obtain ⟨call, hcall, hstore, hopen⟩ := hx
    rcases calls_enter hcall with hold | ⟨rfl, rfl⟩
    · exact Or.inl ⟨call, hold, hstore, hopen⟩
    · exact Or.inr ⟨rfl, hstore, hopen⟩

/-- A call that is refused is over at once. -/
theorem OnRecord.refused {target : Target} {k : Key} {o : Outcome} (onRecord : s.OnRecord) :
    (s.enter target k (.ended o)).OnRecord := by
  have hclosed : ¬ Call.Open ⟨target, k, .ended o⟩ := by
    rintro ⟨held, hopen⟩
    cases hopen
  refine onRecord.entered rfl ?_ (fun c hlists => Or.inl hlists) (fun i m hm => ⟨m, hm, rfl, rfl⟩)
    (fun i m job hm hjob => Or.inl ⟨m, hm, hjob⟩)
    (fun i m job hm hrun hjob => ⟨m, hm, hrun, hjob⟩) (fun _ slot => nofun)
    fun i act manner _ hopen => absurd hopen hclosed
  intro x hx
  rcases expects_enter hx with hold | ⟨_, _, hopen⟩
  · exact onRecord.minded x hold
  · exact absurd hopen hclosed

/-- A call for the store comes with its message. -/
theorem OnRecord.posted {target : Target} {k : Key} {command : Command} (onRecord : s.OnRecord)
    (hrun : s.keeper.running = true) (hstore : target.AtStore)
    (hsender : command.sender = .caller s.calls.length) :
    ((s.enter target k (.pending false .empty)).send command).OnRecord := by
  refine onRecord.entered rfl ?_ ?_ (fun i m hm => ⟨m, hm, rfl, rfl⟩)
    (fun i m job hm hjob => Or.inl ⟨m, hm, hjob⟩)
    (fun i m job hm hrun hjob => ⟨m, hm, hrun, hjob⟩) (fun _ slot => nofun)
    fun i act manner htarget _ => absurd htarget (hstore i act manner)
  swap
  · intro c hlists
    rw [Lists, entries_send] at hlists
    rcases hlists with ⟨command', hmem, hsender'⟩ | hwaits
    · rcases List.mem_append.mp hmem with hmem | hmem
      · exact Or.inl (Or.inl ⟨command', hmem, hsender'⟩)
      · rw [List.mem_singleton.mp hmem, hsender] at hsender'
        exact Or.inr ⟨(Requester.caller.inj hsender').symm, hstore⟩
    · exact Or.inl (Or.inr hwaits)
  intro x hx
  refine ⟨hrun, ?_⟩
  rw [Lists, entries_send]
  have hentered : (s.enter target k (.pending false .empty)).Expects x := hx
  rcases expects_enter hentered with hold | ⟨rfl, _⟩
  · rcases (onRecord.minded x hold).2 with ⟨command', hmem, hsender'⟩ | hwaits
    · exact Or.inl ⟨command', List.mem_append_left _ hmem, hsender'⟩
    · exact Or.inr hwaits
  · exact Or.inl ⟨command, List.mem_append_right _ (List.mem_singleton.mpr rfl), hsender⟩

/-- A call for a client comes with its job. -/
theorem OnRecord.sent {act : Action} {manner : Manner} {k : Key} {held : Bool}
    (onRecord : s.OnRecord) (hm : s.members[i]? = some m) (hrun : m.running = true) :
    ((s.enter (.client i act manner) k (.pending held .empty)).onMember i fun m =>
      { m with inbox := m.inbox.push ⟨s.calls.length, act, k⟩ }).OnRecord := by
  have hpushed : ∀ (m : Member) job,
      job ∈ Member.jobs { m with inbox := m.inbox.push ⟨s.calls.length, act, k⟩ } ↔
        job ∈ m.jobs ∨ job = ⟨s.calls.length, act, k⟩ := by
    intro m job
    simp [Member.jobs, Inbox.push, or_assoc]
  have hclient : ¬ (Target.client i act manner).AtStore := fun h => h i act manner rfl
  refine onRecord.entered rfl ?_ (fun c hlists => Or.inl hlists) ?_ ?_ ?_
    (fun h => absurd h hclient) ?_
  · intro x hx
    have hexpects : s.Expects x := by
      cases x with
      | client j =>
        obtain ⟨n, job, hn, hopen⟩ := hx
        rcases onMember_cases hn with ⟨rfl, n', hn', rfl⟩ | ⟨_, hn⟩
        · exact ⟨n', job, hn', hopen⟩
        · exact ⟨n, job, hn, hopen⟩
      | caller c =>
        rcases expects_enter (x := .caller c) hx with hold | ⟨_, hstore, _⟩
        · exact hold
        · exact absurd hstore hclient
    exact onRecord.minded x hexpects
  · intro j n hn
    rcases onMember_cases hn with ⟨rfl, n', hn', rfl⟩ | ⟨_, hn⟩
    · exact ⟨n', hn', rfl, rfl⟩
    · exact ⟨n, hn, rfl, rfl⟩
  · intro j n job hn hjob
    rcases onMember_cases hn with ⟨rfl, n', hn', rfl⟩ | ⟨_, hn⟩
    · rcases (hpushed n' job).mp hjob with hold | rfl
      · exact Or.inl ⟨n', hn', hold⟩
      · exact Or.inr ⟨rfl, manner, rfl, rfl⟩
    · exact Or.inl ⟨n, hn, hjob⟩
  · intro j n job hn hrun' hjob
    refine job_onMember (s := s.enter _ _ _)
      (f := fun m => { m with inbox := m.inbox.push ⟨s.calls.length, act, k⟩ })
      (fun n' _ hrun'' hjob' => ⟨hrun'', ?_⟩) j n hn hrun' hjob
    exact (hpushed n' job).mpr (Or.inl hjob')
  · intro j act' manner' htarget _
    cases htarget
    refine ⟨{ m with inbox := m.inbox.push ⟨s.calls.length, act, k⟩ }, ?_, hrun, ?_⟩
    · rw [members_onMember, if_pos rfl]
      exact congrArg (Option.map _) hm
    · exact (hpushed m _).mpr (Or.inr rfl)

theorem onRecord_call {target : Target} {k : Key} (onRecord : s.OnRecord)
    (h : s.call target k = some t) : t.OnRecord := by
  cases target with
  | client i act manner =>
    obtain ⟨m, hm, _, ⟨hrun, rfl⟩ | ⟨_, rfl⟩⟩ := call_client_cases h
    · exact onRecord.sent hm hrun
    · exact onRecord.refused
  | store op =>
    obtain ⟨_, ⟨hrun, rfl⟩ | ⟨_, rfl⟩⟩ := call_store_cases h
    · exact onRecord.posted hrun nofun rfl
    · exact onRecord.refused
  | snapshot =>
    obtain ⟨_, ⟨hrun, rfl⟩ | ⟨_, rfl⟩⟩ := call_snapshot_cases h
    · exact onRecord.posted hrun nofun rfl
    · exact onRecord.refused

theorem onRecord_take (onRecord : s.OnRecord) (h : s.take n = some t) : t.OnRecord := by
  obtain ⟨call, hcall, ⟨a, _, rfl⟩ | ⟨hstatus, rfl⟩ | rfl⟩ := take_held_cases h
  · refine onRecord.onCall fun call' _ => ⟨rfl, rfl, ?_, nofun⟩
    rintro ⟨held, hopen⟩
    cases hopen
  · refine onRecord.onCall fun call' hcall' => ⟨rfl, rfl, ?_, fun slot _ => ?_⟩
    · rintro ⟨held, hopen⟩
      cases hopen
    · obtain rfl := Option.some.inj (hcall.symm.trans hcall')
      exact ⟨_, hstatus⟩
  · exact onRecord

theorem onRecord_wait (onRecord : s.OnRecord) (h : s.wait n = some t) : t.OnRecord := by
  obtain ⟨call, slot, hcall, hstatus, rfl⟩ := wait_held_cases h
  refine onRecord.onCall fun call' hcall' => ⟨rfl, rfl, ?_, nofun⟩
  obtain rfl := Option.some.inj (hcall.symm.trans hcall')
  rintro ⟨held, hopen⟩
  cases hopen
  exact ⟨true, hstatus⟩

/-- What a call has sent may be taken back when it is given up. -/
theorem OnRecord.given (onRecord : s.OnRecord) (hcalls : u.calls = s.calls)
    (hminded : ∀ x, x ≠ .caller n → s.Expects x → u.Minds x)
    (hlists : ∀ c, u.Lists (.caller c) → s.Lists (.caller c))
    (hwork : ∀ (i : Nat) m', u.members[i]? = some m' →
      ∃ m, s.members[i]? = some m ∧ m'.work = m.work ∧ m'.running = m.running)
    (hjobs : ∀ (i : Nat) m', u.members[i]? = some m' →
      ∃ m, s.members[i]? = some m ∧ ∀ job ∈ m'.jobs, job ∈ m.jobs)
    (hkeep : ∀ (i : Nat) m job, s.members[i]? = some m → m.running = true → job ∈ m.jobs →
      job.call ≠ n → ∃ m', u.members[i]? = some m' ∧ m'.running = true ∧ job ∈ m'.jobs) :
    (u.onCall n fun c => { c with status := .cancelled }).OnRecord := by
  have hages : List.Forall₂ Call.Ages s.calls
      (u.onCall n fun c => { c with status := .cancelled }).calls := by
    rw [← hcalls]
    exact ages_onCall fun call _ => Call.ages_cancelled call
  have hclosed : ∀ call', (u.onCall n fun c => { c with status := .cancelled }).calls[n]? =
      some call' → ¬ call'.Open := by
    rintro call' hcall' ⟨held, hopen⟩
    rcases onCall_cases hcall' with ⟨_, call, _, rfl⟩ | ⟨hne, _⟩
    · cases hopen
    · exact hne rfl
  refine onRecord.change hages ?_ hlists ?_ hjobs ?_
  · intro x hx
    have hne : x ≠ .caller n := by
      rintro rfl
      obtain ⟨call', hcall', _, hopen⟩ := hx
      exact hclosed call' hcall' hopen
    refine hminded x hne (expects_before hages (fun i m' job hm' hopen => ?_) hx)
    obtain ⟨m, hm, hsame, _⟩ := hwork i m' hm'
    exact ⟨m, hm, hsame ▸ hopen⟩
  · intro i m' w hm' hw
    obtain ⟨m, hm, hsame, hrun⟩ := hwork i m' hm'
    rw [hrun]
    exact onRecord.workers i m w hm (hsame ▸ hw)
  · intro i m job call' hm hrun hjob hcall' hopen
    refine hkeep i m job hm hrun hjob ?_
    rintro hc
    rw [hc] at hcall'
    exact hclosed call' hcall' hopen

/-- Taking back messages of somebody else loses nothing. -/
theorem minds_withdraw {who : Requester} (hminds : s.Minds x) (hne : x ≠ who) :
    (s.withdraw who).Minds x := by
  refine ⟨hminds.1, ?_⟩
  rcases hminds.2 with ⟨command, hmem, rfl⟩ | hwaits
  · exact Or.inl ⟨command, (entries_withdraw _ _).2 _ hmem (by simpa using hne), rfl⟩
  · exact Or.inr hwaits

theorem lists_of_withdraw {who : Requester} (hx : (s.withdraw who).Lists x) : s.Lists x := by
  rcases hx with ⟨command, hmem, hsender⟩ | hwaits
  · exact Or.inl ⟨command, (entries_withdraw _ _).1.subset hmem, hsender⟩
  · exact Or.inr hwaits

theorem onRecord_cancel (onRecord : s.OnRecord) (n : Nat) : (s.cancel n).OnRecord := by
  obtain heq | ⟨call, _, _, ⟨i, act, manner, _, heq⟩ | ⟨_, heq⟩⟩ := cancel_target_cases s n
  · rw [heq]
    exact onRecord
  · rw [heq]
    refine onRecord.given rfl (fun x _ hx => onRecord.minded x hx) (fun c hlists => hlists) ?_ ?_ ?_
    · intro j m' hm'
      rcases onMember_cases hm' with ⟨_, m, hm, rfl⟩ | ⟨_, hm⟩
      · exact ⟨m, hm, rfl, rfl⟩
      · exact ⟨m', hm, rfl, rfl⟩
    · refine jobs_onMember fun m _ job hjob => ?_
      rcases Member.mem_jobs.mp hjob with hwork | hinbox
      · exact Member.mem_jobs.mpr (Or.inl hwork)
      · exact Member.mem_jobs.mpr (Or.inr ((entries_withdraw _ _).1.subset hinbox))
    · intro j m job hm hrun hjob hne
      refine job_onMember (f := fun m => { m with inbox := m.inbox.withdraw (·.call == n) })
        (fun m' _ hrun' hjob' => ⟨hrun', ?_⟩) j m hm hrun hjob
      rcases Member.mem_jobs.mp hjob' with hwork | hinbox
      · exact Member.mem_jobs.mpr (Or.inl hwork)
      · exact Member.mem_jobs.mpr (Or.inr ((entries_withdraw _ _).2 _ hinbox (by simpa using hne)))
  · rw [heq]
    refine onRecord.given rfl ?_ (fun c => lists_of_withdraw) (fun i m hm => ⟨m, hm, rfl, rfl⟩)
      (fun i m hm => ⟨m, hm, fun job hjob => hjob⟩)
      fun i m job hm hrun hjob _ => ⟨m, hm, hrun, hjob⟩
    exact fun x hne hx => minds_withdraw (onRecord.minded x hx) hne

/-! ## Deaths -/

/-- Every call whose job is named has heard what became of it. -/
theorem not_open_foldl {f : Call → Call} (hbecomes : ∀ call : Call, call.Becomes (f call))
    (hclosed : ∀ call, ¬ (f call).Open) {jobs : List Job} (hjob : job ∈ jobs) {call' : Call}
    (hcall' : (jobs.foldl (fun s job => s.onCall job.call f) s).calls[job.call]? = some call') :
    ¬ call'.Open := by
  induction jobs generalizing s with
  | nil => cases hjob
  | cons first rest ih =>
    rcases List.mem_cons.mp hjob with rfl | hmem
    · intro hopen
      have honward := onward_foldl (g := fun s (job : Job) => s.onCall job.call f)
        (fun s job => onward_onCall fun call _ => hbecomes call) rest (s.onCall job.call f)
      obtain ⟨call'', hcall'', hbecomes'⟩ := honward.before hcall'
      rcases onCall_cases hcall'' with ⟨_, call, _, rfl⟩ | ⟨hne, _⟩
      · exact hclosed call (hbecomes'.open hopen)
      · exact hne rfl
    · exact ih hmem hcall'

/-- A client that is killed tells the callers of all its jobs. -/
theorem closed_of_killClient (h : s.killClient i = some t) (hm : s.members[i]? = some m)
    (hrun : m.running = true) (hjob : job ∈ m.jobs) {call' : Call}
    (hcall' : t.calls[job.call]? = some call') : ¬ call'.Open := by
  rw [calls_killClient h hm hrun] at hcall'
  have hwhere : job ∈ m.work.toList.map (·.job) ++ m.inbox.queued ∨ job ∈ m.inbox.blocked := by
    have hsplit : m.jobs = (m.work.toList.map (·.job) ++ m.inbox.queued) ++ m.inbox.blocked := by
      rw [Member.jobs, List.append_assoc, Inbox.queued, Inbox.blocked, List.take_append_drop]
    exact List.mem_append.mp (hsplit ▸ hjob)
  rcases hwhere with hlost | hrefused
  · intro hopen
    have honward := onward_foldl (g := fun s (job : Job) => s.onCall job.call
        (·.refuse (.failure (.clientUnavailable m.name))))
      (fun s job => onward_onCall fun call _ => Call.becomes_refuse) m.inbox.blocked
      ((m.work.toList.map (·.job) ++ m.inbox.queued).foldl
        (fun s job => s.onCall job.call (·.receive .dropped)) s)
    obtain ⟨call, hcall, hbecomes⟩ := honward.before hcall'
    exact not_open_foldl (f := (·.receive .dropped))
      (fun call => Call.becomes_receive (by decide)) (fun call => Call.not_open_receive (by decide))
      hlost hcall (hbecomes.open hopen)
  · exact not_open_foldl (fun call => Call.becomes_refuse) (fun call => Call.not_open_refuse)
      hrefused hcall'

theorem onRecord_killClient (onRecord : s.OnRecord) (h : s.killClient i = some t) :
    t.OnRecord := by
  have hages := ages_of_onward (onward_killClient h)
  obtain ⟨m, hm, ⟨hrun, hkeeper, hmembers⟩ | ⟨_, rfl⟩⟩ := killClient_cases h
  · refine onRecord.halted hages hmembers ?_ (fun c hlists => ?_) ?_
    · intro x hx
      have hidle : ∀ n job, t.members[i]? = some n → n.work ≠ some ⟨job, .empty⟩ := by
        intro n job hn
        rw [hmembers] at hn
        rcases onMember_cases hn with ⟨_, _, _, rfl⟩ | ⟨hne, _⟩
        · nofun
        · exact absurd rfl hne
      have hne : x ≠ .client i := by
        rintro rfl
        obtain ⟨n, job, hn, hopen⟩ := hx
        exact hidle n job hn hopen
      have hexpects : s.Expects x := by
        refine expects_before hages (fun j n job hn hopen => ?_) hx
        rw [hmembers] at hn
        rcases onMember_cases hn with ⟨_, _, _, rfl⟩ | ⟨_, hn⟩
        · cases hopen
        · exact ⟨n, hn, hopen⟩
      have hminds := minds_withdraw (onRecord.minded x hexpects) hne
      rw [Minds, Lists, hkeeper]
      exact hminds
    · rw [Lists, hkeeper] at hlists
      exact lists_of_withdraw hlists
    · intro n job call' hn hjob hcall'
      obtain rfl := Option.some.inj (hm.symm.trans hn)
      exact closed_of_killClient h hm hrun hjob hcall'
  · exact onRecord

/-- Nobody expects anything of a store that was killed. -/
theorem OnRecord.not_expects_killed (onRecord : s.OnRecord) (hrun : s.keeper.running = true) :
    ¬ s.killStore.Expects x := by
  intro hx
  rw [killStore, if_pos hrun] at hx
  have hfolded : (s.keeper.inbox.blocked.foldl turnAway
      (s.keeper.inbox.queued.foldl lose s.dropWaiters)).Expects x := hx
  obtain ⟨hlost, hblocked⟩ := expects_foldl (fun s command => expects_turnAway) hfolded
  obtain ⟨hdropped, hqueued⟩ := expects_foldl (fun s command => expects_lose) hlost
  have hparked := not_waiting_of_dropped hdropped
  rw [dropWaiters_eq_tell] at hdropped
  rcases (onRecord.minded x (expects_tell hdropped).1).2 with ⟨command, hmem, hsender⟩ | ⟨k, hwaits⟩
  · rw [← List.take_append_drop s.keeper.inbox.room s.keeper.inbox.entries] at hmem
    rcases List.mem_append.mp hmem with hmem | hmem
    · exact hqueued command hmem hsender
    · exact hblocked command hmem hsender
  · exact hparked k hwaits

theorem spread_killStore (s : Cluster) : s.Spread s.killStore := by
  unfold killStore
  split
  · have hdropped : s.Spread s.dropWaiters := by
      rw [dropWaiters_eq_tell]
      exact spread_tell _
    have hlost := spread_foldl (g := lose) (fun s command => by
      rw [lose_eq_tell]
      exact spread_tell _) s.keeper.inbox.queued s.dropWaiters
    have haway := spread_foldl (fun s command => spread_turnAway command) s.keeper.inbox.blocked
      (s.keeper.inbox.queued.foldl lose s.dropWaiters)
    exact (hdropped.trans hlost).trans haway
  · exact spread_of_members rfl

theorem onRecord_killStore (onRecord : s.OnRecord) : s.killStore.OnRecord := by
  cases hrun : s.keeper.running with
  | false =>
    rw [killStore, hrun]
    exact onRecord
  | true =>
    refine onRecord.spread (onward_killStore s) (spread_killStore s)
      (fun x hx => absurd hx (onRecord.not_expects_killed hrun)) fun c hlists => ?_
    obtain ⟨k, hkeeper⟩ : ∃ k : Keeper, s.killStore.keeper = k.halt := by
      rw [killStore, if_pos hrun]
      exact ⟨_, rfl⟩
    exact absurd hlists (not_lists_of_halt hkeeper)

/-! ## Steps and runs -/

theorem onRecord_perform {a : Act} (onRecord : s.OnRecord) (h : s.perform a = some t) :
    t.OnRecord := by
  cases a with
  | call target k => exact onRecord_call onRecord h
  | take c => exact onRecord_take onRecord h
  | wait c => exact onRecord_wait onRecord h
  | cancel c =>
    obtain rfl := Option.some.inj h
    exact onRecord_cancel onRecord c
  | closeClient i =>
    obtain rfl := closeClient_cases h
    have hsame : ∀ (j : Nat) m', (s.onMember i fun m => { m with handle := false }).members[j]? =
        some m' → ∃ m, s.members[j]? = some m ∧ m'.work = m.work ∧ m'.running = m.running ∧
          m'.jobs = m.jobs := by
      intro j m' hm'
      rcases onMember_cases hm' with ⟨_, m, hm, rfl⟩ | ⟨_, hm⟩
      · exact ⟨m, hm, rfl, rfl, rfl⟩
      · exact ⟨m', hm, rfl, rfl, rfl⟩
    have hages : List.Forall₂ Call.Ages s.calls
        (s.onMember i fun m => { m with handle := false }).calls :=
      ages_of_onward (onward_of_calls rfl)
    refine onRecord.change hages (fun x => onRecord.minds rfl hages ?_) (fun c hlists => hlists)
      ?_ ?_ ?_
    · intro j m' job hm' hopen
      obtain ⟨m, hm, hwork, _⟩ := hsame j m' hm'
      exact ⟨m, hm, hwork ▸ hopen⟩
    · intro j m' w hm' hw
      obtain ⟨m, hm, hwork, hrun, _⟩ := hsame j m' hm'
      rw [hrun]
      exact onRecord.workers j m w hm (hwork ▸ hw)
    · intro j m' hm'
      obtain ⟨m, hm, _, _, hjobs⟩ := hsame j m' hm'
      exact ⟨m, hm, fun job hjob => hjobs ▸ hjob⟩
    · intro j m job _ hm hrun hjob _ _
      exact job_onMember (f := fun m => { m with handle := false })
        (fun m' _ hrun' hjob' => ⟨hrun', hjob'⟩) j m hm hrun hjob
  | closeStore =>
    obtain rfl := Option.some.inj h
    exact ⟨onRecord.minded, onRecord.callers, onRecord.workers, onRecord.unheld, onRecord.placed,
      onRecord.carried⟩
  | killClient i => exact onRecord_killClient onRecord h
  | killStore =>
    obtain rfl := Option.some.inj h
    exact onRecord_killStore onRecord

theorem onRecord_step {l : Label} (onRecord : s.OnRecord) (h : s.step l = some (t, es)) :
    t.OnRecord := by
  cases l with
  | act a => exact onRecord_perform onRecord (step_act h).1
  | move mv =>
    obtain ⟨e, hfire, _⟩ := step_move h
    exact onRecord_fire onRecord hfire

theorem onRecord_run {labels : List Label} (onRecord : s.OnRecord)
    (h : s.run labels = some (t, es)) : t.OnRecord :=
  run_induction (A := fun _ => True) (P := fun u _ => u.OnRecord)
    (fun _ _ _ _ _ _ hu hstep => onRecord_step hu hstep) (fun _ _ => trivial) [] onRecord h

end Cluster

end Custody
