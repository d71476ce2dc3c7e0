import Custody.Proofs.Calls.Accounts

/-!
# Where each call is

Every call is accounted for, and every job and every message belongs to a call of its kind, so no
answer goes astray. Each step keeps this; new calls come with their job or their message.
-/

namespace Custody

namespace Cluster

structure Booked (s : Cluster) (es : List Event) : Prop where
  accounted : ∀ c call, s.calls[c]? = some call → s.Accounts es c call
  placed : ∀ (i : Nat) m job, s.members[i]? = some m → job ∈ m.jobs → ∃ call manner,
    s.calls[job.call]? = some call ∧ call.target = .client i job.action manner ∧
      call.key = job.key
  watched : ∀ c, .snapshot c ∈ s.keeper.inbox.entries →
    ∃ call, s.calls[c]? = some call ∧ call.target = .snapshot

variable {s t : Cluster} {es now : List Event} {e : Event} {c i : Nat} {call call' : Call}
  {m n : Member} {job : Job}

theorem booked_start (setup : Setup) : (start setup).Booked [] where
  accounted c call hcall := by simp [start] at hcall
  placed i m job hm hjob := by
    simp only [start, List.getElem?_map, Option.map_eq_some_iff] at hm
    obtain ⟨client, _, rfl⟩ := hm
    rcases Member.mem_jobs.mp hjob with ⟨slot, hwork⟩ | hinbox
    · cases hwork
    · cases hinbox
  watched c hc := by simp [start] at hc

/-- Jobs and messages may become fewer as long as each call is still accounted for. -/
theorem Booked.change (booked : s.Booked es)
    (hjobs : ∀ (i : Nat) m', t.members[i]? = some m' →
      ∃ m, s.members[i]? = some m ∧ ∀ job ∈ m'.jobs, job ∈ m.jobs)
    (hwatch : ∀ c, .snapshot c ∈ t.keeper.inbox.entries → .snapshot c ∈ s.keeper.inbox.entries)
    (hcalls : ∀ (c : Nat) call, s.calls[c]? = some call → ∃ call', t.calls[c]? = some call' ∧
      call'.target = call.target ∧ call'.key = call.key)
    (haccounted : ∀ (c : Nat) call', t.calls[c]? = some call' → t.Accounts now c call') :
    t.Booked now where
  accounted := haccounted
  placed := by
    intro i m' job hm' hjob
    obtain ⟨m, hm, hless⟩ := hjobs i m' hm'
    obtain ⟨call, manner, hcall, htarget, hkey⟩ := booked.placed i m job hm (hless job hjob)
    obtain ⟨call', hcall', htarget', hkey'⟩ := hcalls job.call call hcall
    exact ⟨call', manner, hcall', htarget'.trans htarget, hkey'.trans hkey⟩
  watched := by
    intro c hc
    obtain ⟨call, hcall, htarget⟩ := booked.watched c (hwatch c hc)
    obtain ⟨call', hcall', htarget', _⟩ := hcalls c call hcall
    exact ⟨call', hcall', htarget'.trans htarget⟩

/-- A call stays the same call whatever becomes of it. -/
theorem call_onCall {id : Nat} {f : Call → Call} (hf : ∀ call, s.calls[id]? = some call →
    (f call).target = call.target ∧ (f call).key = call.key) (hcall : s.calls[c]? = some call) :
    ∃ call', (s.onCall id f).calls[c]? = some call' ∧ call'.target = call.target ∧
      call'.key = call.key := by
  rw [calls_onCall, hcall]
  split
  · rename_i hc
    subst hc
    exact ⟨f call, rfl, hf call hcall⟩
  · exact ⟨call, rfl, rfl, rfl⟩

/-- A change of one call. -/
theorem Booked.onCall (booked : s.Booked es) {f : Call → Call}
    (hf : ∀ call, s.calls[c]? = some call → (f call).target = call.target ∧
      (f call).key = call.key ∧ (s.onCall c f).Accounts (es ++ now) c (f call)) :
    (s.onCall c f).Booked (es ++ now) := by
  refine booked.change (fun i m hm => ⟨m, hm, fun job hjob => hjob⟩) (fun c hc => hc) ?_ ?_
  · exact fun c' call => call_onCall fun call hcall => ⟨(hf call hcall).1, (hf call hcall).2.1⟩
  · intro c' call' hcall'
    rcases onCall_cases hcall' with ⟨rfl, call, hcall, rfl⟩ | ⟨_, hcall'⟩
    · exact (hf call hcall).2.2
    · exact (booked.accounted c' call' hcall').mono fun hthere => hthere

/-- Where all jobs and messages stay, nothing else matters. -/
theorem Booked.stay (booked : s.Booked es) (hcalls : t.calls = s.calls)
    (hjobs : ∀ (i : Nat) m', t.members[i]? = some m' →
      ∃ m, s.members[i]? = some m ∧ ∀ job ∈ m'.jobs, job ∈ m.jobs)
    (hkeep : ∀ (i : Nat) m job, s.members[i]? = some m → m.running = true → job ∈ m.jobs →
      ∃ m', t.members[i]? = some m' ∧ m'.running = true ∧ job ∈ m'.jobs)
    (hwatch : ∀ c, .snapshot c ∈ t.keeper.inbox.entries ↔
      .snapshot c ∈ s.keeper.inbox.entries) : t.Booked (es ++ now) := by
  refine booked.change hjobs (fun c hc => (hwatch c).mp hc) ?_ ?_
  · intro c call hcall
    exact ⟨call, hcalls ▸ hcall, rfl, rfl⟩
  · intro c call hcall
    refine (booked.accounted c call (hcalls ▸ hcall)).mono fun hthere => ?_
    exact hthere.change (fun i act manner m _ hm hrun hjob => hkeep i m _ hm hrun hjob)
      (hwatch c).mpr

theorem booked_serve (traced : s.docket.Traced es) (booked : s.Booked es)
    (h : s.serve = some (t, e)) : t.Booked (es ++ [e]) := by
  obtain ⟨_, rest, ⟨r, hentries, rfl, rfl⟩ | ⟨c, hentries, rfl, rfl⟩⟩ := serve_cases h
  · have hr : r ∈ s.docket.queue := by simp [docket, requests, hentries, Command.request?]
    refine booked.change ?_ ?_ ?_ ?_
    · intro i m' hm'
      rw [members_tell] at hm'
      obtain ⟨m, hm, rfl⟩ := Option.map_eq_some_iff.mp hm'
      exact ⟨m, hm, fun job hjob => by rwa [Member.jobs_hear] at hjob⟩
    · intro c hc
      rw [keeper_tell] at hc
      rw [hentries]
      exact List.mem_cons_of_mem _ hc
    · intro c call hcall
      rw [calls_tell, calls_stored, hcall]
      exact ⟨_, rfl, Call.target_hear, Call.key_hear⟩
    · intro c call' hcall'
      rw [calls_tell, calls_stored] at hcall'
      obtain ⟨call, hcall, rfl⟩ := Option.map_eq_some_iff.mp hcall'
      have haccounts := booked.accounted c call hcall
      by_cases hstore : ∃ op, call.target = .store op
      · obtain ⟨op, htarget⟩ := hstore
        exact haccounts.hear htarget _
      · -- a call on a client or for a snapshot hears nothing of the store
        have hidle := inquiry_of_other hcall fun op htarget => hstore ⟨op, htarget⟩
        have hunheard : ((s.keeper.store.handle s.isPresent r).2.fates r.who).lookup (.caller c) =
            none := traced.unheard_of_idle hidle hr
        rw [hunheard]
        refine haccounts.mono fun hthere => hthere.change ?_ ?_
        · intro i act manner m _ hm hrun hjob
          rw [members_tell, members_stored, hm]
          exact ⟨_, rfl, hrun, by rwa [Member.jobs_hear]⟩
        · intro hc
          rw [hentries] at hc
          rw [keeper_tell]
          rcases List.mem_cons.mp hc with hc | hc
          · cases hc
          · exact hc
  · refine booked.change (fun i m hm => ⟨m, hm, fun job hjob => hjob⟩) ?_ ?_ ?_
    · intro c' hc'
      rw [hentries]
      exact List.mem_cons_of_mem _ hc'
    · exact fun c' call => call_onCall (s := s.stored rest s.keeper.store)
        fun call _ => ⟨Call.target_receive, Call.key_receive⟩
    · intro c' call' hcall'
      rcases onCall_cases hcall' with ⟨rfl, call, hcall, rfl⟩ | ⟨hc, hcall'⟩
      · obtain ⟨call', hwatched, htarget⟩ := booked.watched c (by simp [hentries])
        obtain rfl := Option.some.inj (hcall.symm.trans hwatched)
        exact (booked.accounted c call hcall).receive htarget
      · refine (booked.accounted c' call' hcall').mono fun hthere => hthere.change ?_ ?_
        · exact fun i act manner m _ hm hrun hjob => ⟨m, hm, hrun, hjob⟩
        · intro hc'
          rw [hentries] at hc'
          rcases List.mem_cons.mp hc' with hc' | hc'
          · exact absurd (Command.snapshot.inj hc').symm hc
          · exact hc'

theorem jobs_onMember {f : Member → Member}
    (hless : ∀ m, s.members[i]? = some m → ∀ job ∈ (f m).jobs, job ∈ m.jobs) (j : Nat)
    (m' : Member) (hm' : (s.onMember i f).members[j]? = some m') :
    ∃ m, s.members[j]? = some m ∧ ∀ job ∈ m'.jobs, job ∈ m.jobs := by
  rcases onMember_cases hm' with ⟨rfl, m, hm, rfl⟩ | ⟨_, hm'⟩
  · exact ⟨m, hm, hless m hm⟩
  · exact ⟨m', hm', fun job hjob => hjob⟩

theorem job_onMember {f : Member → Member}
    (hkeep : ∀ m, s.members[i]? = some m → m.running = true → job ∈ m.jobs →
      (f m).running = true ∧ job ∈ (f m).jobs) (j : Nat) (m : Member)
    (hm : s.members[j]? = some m) (hrun : m.running = true) (hjob : job ∈ m.jobs) :
    ∃ m', (s.onMember i f).members[j]? = some m' ∧ m'.running = true ∧ job ∈ m'.jobs := by
  rw [members_onMember]
  split
  · rename_i hij
    subst hij
    obtain ⟨hrun', hjob'⟩ := hkeep m hm hrun hjob
    exact ⟨f m, by rw [hm]; rfl, hrun', hjob'⟩
  · exact ⟨m, hm, hrun, hjob⟩

/-- A client that has settled a job tells the caller whose job it was. -/
theorem Booked.answered (booked : s.Booked es) (hm : s.members[i]? = some m)
    (hrun : n.running = true) (hjob : job ∈ m.jobs) (hless : ∀ job' ∈ n.jobs, job' ∈ m.jobs)
    (hrest : ∀ job' ∈ m.jobs, job' ≠ job → job' ∈ n.jobs) (r : ClientReply) :
    ((s.onMember i fun _ => n).answer job r).Booked (es ++ [.answered i job r]) := by
  refine booked.change ?_ (fun c hc => hc) ?_ ?_
  · refine jobs_onMember fun m' hm' => ?_
    obtain rfl := Option.some.inj (hm.symm.trans hm')
    exact hless
  · exact fun c call => call_onCall (s := s.onMember i fun _ => n)
      fun call _ => ⟨Call.target_receive, Call.key_receive⟩
  · intro c call' hcall'
    rcases onCall_cases hcall' with ⟨rfl, call, hcall, rfl⟩ | ⟨hc, hcall'⟩
    · obtain ⟨call', manner, hplaced, htarget, hkey⟩ := booked.placed i m job hm hjob
      obtain rfl := Option.some.inj (hcall.symm.trans hplaced)
      refine (booked.accounted _ call hcall).receive ⟨i, job.action, manner, htarget, ?_⟩
      rw [hkey]
      exact List.mem_append_right _ (List.mem_singleton.mpr rfl)
    · refine (booked.accounted c call' hcall').mono fun hthere => hthere.change ?_ fun hc => hc
      intro j act manner m' _ hm' hrun' hjob'
      refine job_onMember (fun m'' hm'' _ hjob'' => ?_) j m' hm' hrun' hjob'
      obtain rfl := Option.some.inj (hm.symm.trans hm'')
      refine ⟨hrun, hrest _ hjob'' ?_⟩
      rintro rfl
      exact hc rfl

theorem booked_begin (booked : s.Booked es) (h : s.begin i = some (t, e))
    (hkeeper : s.keeper.running = true) : t.Booked (es ++ [e]) := by
  obtain ⟨m, job, rest, cache, hm, hrun, hwork, hentries, hcases⟩ := begin_cases h
  have hjobs : m.jobs = job :: rest := by
    rw [Member.jobs, hwork, hentries]
    rfl
  obtain ⟨r, _, rfl, rfl⟩ | ⟨_, _, rfl, rfl⟩ | ⟨_, hstopped, _⟩ := hcases
  · have hleft : (m.take cache rest).jobs = rest := by
      rw [Member.jobs, Member.take, hwork]
      rfl
    refine booked.answered (n := m.take cache rest) hm hrun ?_ ?_ ?_ r
    · simp [hjobs]
    · simp only [hleft, hjobs]
      exact fun job' hjob' => List.mem_cons_of_mem job hjob'
    · simp only [hleft, hjobs]
      rintro job' hjob' hne
      exact (List.mem_cons.mp hjob').resolve_left hne
  · -- the job moves from the inbox into the client's hands
    have hsame : Member.jobs { m.take cache rest with work := some ⟨job, .empty⟩ } = m.jobs := by
      rw [hjobs]
      rfl
    refine booked.stay rfl ?_ ?_ ?_
    · refine jobs_onMember fun m' hm' => ?_
      obtain rfl := Option.some.inj (hm.symm.trans hm')
      exact fun job' hjob' => hsame ▸ hjob'
    · intro j m' job' hm' hrun' hjob'
      refine job_onMember (fun m'' hm'' _ hjob'' => ?_) j m' hm' hrun' hjob'
      obtain rfl := Option.some.inj (hm.symm.trans hm'')
      exact ⟨hrun, hsame ▸ hjob''⟩
    · intro c
      simp [entries_send]
  · rw [hkeeper] at hstopped
    cases hstopped

theorem booked_resume (booked : s.Booked es) (h : s.resume i = some (t, e))
    (hrunning : ∀ m, s.members[i]? = some m → m.work ≠ none → m.running = true) :
    t.Booked (es ++ [e]) := by
  obtain ⟨m, job, slot, answer, cache, r, hm, hwork, _, _, rfl, rfl⟩ := resume_cases h
  have hjobs : m.jobs = job :: m.inbox.entries := by
    rw [Member.jobs, hwork]
    rfl
  have hleft : Member.jobs { m with cache, work := none } = m.inbox.entries := rfl
  have hrun : m.running = true := hrunning m hm (by simp [hwork])
  refine booked.answered (n := { m with cache, work := none }) hm hrun ?_ ?_ ?_ r
  · simp [hjobs]
  · simp only [hleft, hjobs]
    exact fun job' hjob' => List.mem_cons_of_mem job hjob'
  · simp only [hleft, hjobs]
    rintro job' hjob' hne
    exact (List.mem_cons.mp hjob').resolve_left hne

/-- A member leaves with nothing left to do. -/
theorem booked_leave (booked : s.Booked es) (h : s.leave i = some (t, e)) :
    t.Booked (es ++ [e]) := by
  obtain ⟨m, hm, _, hidle, hentries, _, rfl, _⟩ := leave_cases h
  have hnone : m.jobs = [] := by
    rw [Member.jobs, hidle, hentries]
    rfl
  refine booked.stay rfl (jobs_onMember fun m' _ job hjob => ?_) ?_ fun c => Iff.rfl
  · cases hjob
  · intro j m' job hm' hrun hjob
    refine job_onMember (fun m'' hm'' _ hjob'' => ?_) j m' hm' hrun hjob
    obtain rfl := Option.some.inj (hm.symm.trans hm'')
    rw [hnone] at hjob''
    cases hjob''

/-- A caller that takes note of its outcome has not heard anything new. -/
theorem booked_finish {id : Nat} (booked : s.Booked es) (h : s.finish id = some (t, e)) :
    t.Booked (es ++ [e]) := by
  obtain ⟨call, o, hcall, ho, rfl, rfl⟩ := finish_cases h
  refine booked.onCall fun call' hcall' => ?_
  obtain rfl := Option.some.inj (hcall.symm.trans hcall')
  refine ⟨rfl, rfl, ?_⟩
  have haccounts := booked.accounted id call hcall
  unfold outcome? at ho
  split at ho
  · rename_i a hstatus
    obtain rfl := Option.some.inj ho
    refine .answered a rfl ((haccounts.answers (by rw [hstatus]; rfl)).mono ?_ rfl rfl)
    exact List.subset_append_left es _
  · rename_i hstatus
    obtain rfl := Option.some.inj ho
    obtain ⟨_, op, hop⟩ := haccounts.of_dropped (by rw [hstatus]; rfl)
    refine .lost op hop (Or.inr ?_)
    rw [lossOf, hop]
  · rename_i hstatus
    exact absurd (by rw [hstatus]; rfl) haccounts.unspent
  · cases ho

theorem booked_take {id : Nat} (booked : s.Booked es) (h : s.take id = some t) :
    t.Booked es := by
  obtain ⟨call, hcall, h⟩ := take_held_cases h
  have haccounts := booked.accounted id call hcall
  obtain ⟨a, hstatus, rfl⟩ | ⟨hstatus, _⟩ | rfl := h
  · rw [← List.append_nil es]
    refine booked.onCall fun call' hcall' => ⟨rfl, rfl, ?_⟩
    obtain rfl := Option.some.inj (hcall.symm.trans hcall')
    refine .answered a rfl ((haccounts.answers (by rw [hstatus]; rfl)).mono ?_ rfl rfl)
    exact List.subset_append_left es _
  · exact absurd (haccounts.of_dropped (by rw [hstatus]; rfl)).1 (Call.not_dropped_of_held hstatus)
  · exact booked

theorem booked_wait {id : Nat} (booked : s.Booked es) (h : s.wait id = some t) :
    t.Booked es := by
  obtain ⟨call, slot, hcall, hstatus, rfl⟩ := wait_held_cases h
  rw [← List.append_nil es]
  refine booked.onCall fun call' hcall' => ⟨rfl, rfl, ?_⟩
  obtain rfl := Option.some.inj (hcall.symm.trans hcall')
  cases booked.accounted id call hcall with
  | gone hgone =>
    rw [hstatus] at hgone
    cases hgone
  | underway hopen hthere =>
    rw [hstatus] at hopen
    refine .underway hopen ?_
    unfold Carries at hthere ⊢
    cases htarget : call.target with
    | client i act manner =>
      rw [htarget] at hthere
      exact hthere
    | store op =>
      rw [htarget, hstatus] at hthere
      cases hthere
    | snapshot =>
      rw [htarget] at hthere
      exact hthere
  | answered a hfull ha =>
    rw [hstatus] at hfull
    exact .answered a hfull (ha.mono (List.subset_append_left es _) rfl rfl)
  | lost op hop hlost =>
    exact absurd hlost (Call.not_dropped_of_held hstatus)

/-- Whoever gives up a call may take back its own job or message, and nobody else's. -/
theorem Booked.given {u : Cluster} {id : Nat} (booked : s.Booked es) (hcalls : u.calls = s.calls)
    (hjobs : ∀ (i : Nat) m', u.members[i]? = some m' →
      ∃ m, s.members[i]? = some m ∧ ∀ job ∈ m'.jobs, job ∈ m.jobs)
    (hkeep : ∀ (i : Nat) m job, s.members[i]? = some m → m.running = true → job ∈ m.jobs →
      job.call ≠ id → ∃ m', u.members[i]? = some m' ∧ m'.running = true ∧ job ∈ m'.jobs)
    (hwatch : ∀ c, .snapshot c ∈ u.keeper.inbox.entries → .snapshot c ∈ s.keeper.inbox.entries)
    (hsent : ∀ c, .snapshot c ∈ s.keeper.inbox.entries → c ≠ id →
      .snapshot c ∈ u.keeper.inbox.entries) :
    (u.onCall id fun c => { c with status := .cancelled }).Booked es := by
  refine booked.change hjobs hwatch ?_ ?_
  · exact fun c call hcall => call_onCall (fun call _ => ⟨rfl, rfl⟩) (hcalls ▸ hcall)
  · intro c call' hcall'
    rcases onCall_cases hcall' with ⟨_, call, _, rfl⟩ | ⟨hc, hcall'⟩
    · exact .gone rfl
    · rw [hcalls] at hcall'
      rw [← List.append_nil es]
      refine (booked.accounted c call' hcall').mono fun hthere => hthere.change ?_ fun hc' =>
        hsent c hc' (Ne.symm hc)
      exact fun i act manner m _ hm hrun hjob => hkeep i m _ hm hrun hjob (Ne.symm hc)

theorem booked_cancel (booked : s.Booked es) (id : Nat) : (s.cancel id).Booked es := by
  obtain heq | ⟨call, hcall, _, ⟨i, act, manner, htarget, heq⟩ | ⟨_, heq⟩⟩ :=
    cancel_target_cases s id
  · rw [heq]
    exact booked
  · rw [heq]
    refine booked.given rfl (jobs_onMember fun m _ job hjob => ?_) ?_ (fun c hc => hc)
      fun c hc _ => hc
    · rcases Member.mem_jobs.mp hjob with hwork | hinbox
      · exact Member.mem_jobs.mpr (Or.inl hwork)
      · exact Member.mem_jobs.mpr (Or.inr ((entries_withdraw _ _).1.subset hinbox))
    · intro j m job hm hrun hjob hne
      refine job_onMember (f := fun m => { m with inbox := m.inbox.withdraw (·.call == id) })
        (fun m' _ hrun' hjob' => ⟨hrun', ?_⟩) j m hm hrun hjob
      rcases Member.mem_jobs.mp hjob' with hwork | hinbox
      · exact Member.mem_jobs.mpr (Or.inl hwork)
      · exact Member.mem_jobs.mpr (Or.inr ((entries_withdraw _ _).2 _ hinbox (by simpa using hne)))
  · rw [heq]
    refine booked.given rfl (fun i m hm => ⟨m, hm, fun job hjob => hjob⟩)
      (fun i m job hm hrun hjob _ => ⟨m, hm, hrun, hjob⟩)
      (fun c hc => (entries_withdraw _ _).1.subset hc) ?_
    exact fun c hc hne => (entries_withdraw _ _).2 _ hc (by simpa [Command.sender] using hne)

/-! ## New calls -/

theorem calls_enter {target : Target} {k : Key} {status : Status} {c : Nat} {call : Call}
    (h : (s.enter target k status).calls[c]? = some call) :
    s.calls[c]? = some call ∨ (c = s.calls.length ∧ call = ⟨target, k, status⟩) := by
  rcases entry_snoc h with hold | ⟨hc, hnew⟩
  · exact Or.inl hold
  · exact Or.inr ⟨hc, hnew.symm⟩

theorem enter_old {target : Target} {k : Key} {status : Status} {c : Nat} {call : Call}
    (h : s.calls[c]? = some call) : (s.enter target k status).calls[c]? = some call := by
  obtain ⟨hc, _⟩ := List.getElem?_eq_some_iff.mp h
  rw [enter, List.getElem?_append_left hc, h]

theorem enter_new (s : Cluster) (target : Target) (k : Key) (status : Status) :
    (s.enter target k status).calls[s.calls.length]? = some ⟨target, k, status⟩ := by
  simp [enter]

/-- A new call is accounted for if its job or its message is there. -/
theorem Booked.entered {target : Target} {k : Key} {status : Status} (booked : s.Booked es)
    (hcalls : t.calls = (s.enter target k status).calls)
    (hnew : t.Accounts es s.calls.length ⟨target, k, status⟩)
    (hjobs : ∀ (i : Nat) m' job, t.members[i]? = some m' → job ∈ m'.jobs →
      (∃ m, s.members[i]? = some m ∧ job ∈ m.jobs) ∨ (job.call = s.calls.length ∧
        ∃ manner, target = .client i job.action manner ∧ k = job.key))
    (hkeep : ∀ (i : Nat) m job, s.members[i]? = some m → m.running = true → job ∈ m.jobs →
      ∃ m', t.members[i]? = some m' ∧ m'.running = true ∧ job ∈ m'.jobs)
    (hwatch : ∀ c, .snapshot c ∈ t.keeper.inbox.entries →
      .snapshot c ∈ s.keeper.inbox.entries ∨ (c = s.calls.length ∧ target = .snapshot))
    (hsent : ∀ c, .snapshot c ∈ s.keeper.inbox.entries →
      .snapshot c ∈ t.keeper.inbox.entries) : t.Booked es where
  accounted := by
    intro c call hcall
    rw [hcalls] at hcall
    rcases calls_enter hcall with hold | ⟨rfl, rfl⟩
    · rw [← List.append_nil es]
      refine (booked.accounted c call hold).mono fun hthere => hthere.change ?_ (hsent c)
      exact fun i act manner m _ hm hrun hjob => hkeep i m _ hm hrun hjob
    · exact hnew
  placed := by
    intro i m' job hm' hjob
    rw [hcalls]
    rcases hjobs i m' job hm' hjob with ⟨m, hm, hold⟩ | ⟨hc, manner, htarget, hkey⟩
    · obtain ⟨call, manner, hcall, htarget, hkey⟩ := booked.placed i m job hm hold
      exact ⟨call, manner, enter_old hcall, htarget, hkey⟩
    · exact ⟨_, manner, hc ▸ s.enter_new target k status, htarget, hkey⟩
  watched := by
    intro c hc
    rw [hcalls]
    rcases hwatch c hc with hold | ⟨rfl, htarget⟩
    · obtain ⟨call, hcall, htarget⟩ := booked.watched c hold
      exact ⟨call, enter_old hcall, htarget⟩
    · exact ⟨_, s.enter_new target k status, htarget⟩

/-- A new job goes to the end of its member's inbox. -/
theorem Booked.sent {act : Action} {manner : Manner} {k : Key} {held : Bool}
    (booked : s.Booked es) (hm : s.members[i]? = some m) (hrun : m.running = true) :
    ((s.enter (.client i act manner) k (.pending held .empty)).onMember i fun m =>
      { m with inbox := m.inbox.push ⟨s.calls.length, act, k⟩ }).Booked es := by
  have hpushed : ∀ (m : Member) job,
      job ∈ Member.jobs { m with inbox := m.inbox.push ⟨s.calls.length, act, k⟩ } ↔
        job ∈ m.jobs ∨ job = ⟨s.calls.length, act, k⟩ := by
    intro m job
    simp [Member.jobs, Inbox.push, or_assoc]
  refine booked.entered rfl (.underway rfl ?_) ?_ ?_ (fun c hc => Or.inl hc) fun c hc => hc
  · refine ⟨{ m with inbox := m.inbox.push ⟨s.calls.length, act, k⟩ }, ?_, hrun, ?_⟩
    · rw [members_onMember, if_pos rfl]
      exact congrArg (Option.map _) hm
    · exact (hpushed m _).mpr (Or.inr rfl)
  · intro j m' job hm' hjob
    rcases onMember_cases hm' with ⟨rfl, m'', hm'', rfl⟩ | ⟨_, hm'⟩
    · rcases (hpushed m'' job).mp hjob with hold | rfl
      · exact Or.inl ⟨m'', hm'', hold⟩
      · exact Or.inr ⟨rfl, manner, rfl, rfl⟩
    · exact Or.inl ⟨m', hm', hjob⟩
  · intro j m' job hm' hrun' hjob'
    refine job_onMember (s := s.enter _ _ _)
      (f := fun m => { m with inbox := m.inbox.push ⟨s.calls.length, act, k⟩ })
      (fun m'' _ hrun'' hjob'' => ⟨hrun'', ?_⟩) j m' hm' hrun' hjob'
    exact (hpushed m'' job).mpr (Or.inl hjob'')

theorem booked_call {target : Target} {k : Key} (booked : s.Booked es)
    (h : s.call target k = some t)
    (hmembers : ∀ (i : Nat) m, s.members[i]? = some m → m.handle = true → m.running = true)
    (hkeeper : s.keeper.handle = true → s.keeper.running = true) : t.Booked es := by
  cases target with
  | client i act manner =>
    obtain ⟨m, hm, hhandle, ⟨hrun, rfl⟩ | ⟨hstopped, _⟩⟩ := call_client_cases h
    · exact booked.sent hm hrun
    · rw [hmembers i m hm hhandle] at hstopped
      cases hstopped
  | store op =>
    obtain ⟨hhandle, ⟨hrun, rfl⟩ | ⟨hstopped, _⟩⟩ := call_store_cases h
    · refine booked.entered rfl (.underway rfl rfl)
        (fun i m job hm hjob => Or.inl ⟨m, hm, hjob⟩)
        (fun i m job hm hrun hjob => ⟨m, hm, hrun, hjob⟩) ?_ ?_
      · intro c hc
        rw [entries_send] at hc
        rcases List.mem_append.mp hc with hc | hc
        · exact Or.inl hc
        · cases List.mem_singleton.mp hc
      · intro c hc
        exact List.mem_append_left _ hc
    · rw [hkeeper hhandle] at hstopped
      cases hstopped
  | snapshot =>
    obtain ⟨hhandle, ⟨hrun, rfl⟩ | ⟨hstopped, _⟩⟩ := call_snapshot_cases h
    · refine booked.entered rfl (.underway rfl ?_)
        (fun i m job hm hjob => Or.inl ⟨m, hm, hjob⟩)
        (fun i m job hm hrun hjob => ⟨m, hm, hrun, hjob⟩) ?_ ?_
      · exact List.mem_append_right _ (List.mem_singleton.mpr rfl)
      · intro c hc
        rw [entries_send] at hc
        rcases List.mem_append.mp hc with hc | hc
        · exact Or.inl hc
        · exact Or.inr ⟨Command.snapshot.inj (List.mem_singleton.mp hc), rfl⟩
      · intro c hc
        exact List.mem_append_left _ hc
    · rw [hkeeper hhandle] at hstopped
      cases hstopped

end Cluster

end Custody
