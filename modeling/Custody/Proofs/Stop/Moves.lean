import Custody.Proofs.Stop.Record

/-!
# Moves keep the record

When the store decides on a message, those who expected it hear of it, and when a member answers,
its caller hears of it. So whoever still expects something after a move is still on record. An actor
stops of its own accord only when nobody expects anything of it.
-/

namespace Custody

namespace Cluster

variable {s t u : Cluster} {e : Event} {es : List Event} {i n : Nat} {m : Member} {call : Call}
  {x : Requester} {job : Job}

/-! ## News -/

/-- Members of `t` are those of `s`, some of whom have heard from the store. -/
def Spread (s t : Cluster) : Prop :=
  List.Forall₂ (fun m m' => ∃ f, m' = Member.hear m f) s.members t.members

theorem spread_of_members (h : t.members = s.members) : s.Spread t := by
  rw [Spread, h]
  exact List.forall₂_same.mpr fun m _ => ⟨none, m.hear_none.symm⟩

theorem Spread.trans (h : s.Spread t) (h' : t.Spread u) : s.Spread u := by
  refine forall₂_trans ?_ h h'
  rintro m _ _ ⟨f, rfl⟩ ⟨g, rfl⟩
  cases f with
  | none => exact ⟨g, by rw [m.hear_none]⟩
  | some f => exact ⟨some f, Member.hear_hear m f g⟩

theorem spread_deliver (who : Requester) (f : Fate) : s.Spread (s.deliver who f.news) := by
  cases who with
  | client i =>
    exact forall₂_modify (fun m => ⟨none, m.hear_none.symm⟩) fun m _ => ⟨some f, rfl⟩
  | caller c => exact spread_of_members rfl

theorem spread_foldl {α : Type} {g : Cluster → α → Cluster}
    (hg : ∀ (s : Cluster) a, s.Spread (g s a)) (l : List α) (s : Cluster) :
    s.Spread (l.foldl g s) := by
  induction l generalizing s with
  | nil => exact spread_of_members rfl
  | cons a rest ih => exact (hg s a).trans (ih (g s a))

theorem spread_tell (fates : List (Requester × Fate)) : s.Spread (s.tell fates) := by
  apply spread_foldl
  intro s f
  exact spread_deliver f.1 f.2

theorem spread_turnAway (command : Command) : s.Spread (s.turnAway command) := by
  rcases command with ⟨op, key, i | c⟩ | c
  · exact spread_deliver (.client i) .discarded
  · exact spread_of_members rfl
  · exact spread_of_members rfl

/-- News changes no job, and nobody goes on to wait who has heard it. -/
theorem OnRecord.spread (onRecord : s.OnRecord) (honward : s.Onward t) (hspread : s.Spread t)
    (hminded : ∀ x, t.Expects x → t.Minds x)
    (hlists : ∀ c, t.Lists (.caller c) → s.Lists (.caller c)) : t.OnRecord := by
  refine onRecord.change (ages_of_onward honward) hminded hlists ?_ ?_ ?_
  · intro i m' w hm' hwork
    obtain ⟨m, hm, f, rfl⟩ := before_of_forall₂ hspread hm'
    obtain ⟨w, hw, rfl⟩ := Option.map_eq_some_iff.mp hwork
    obtain ⟨hrun, hunspent⟩ := onRecord.workers i m w hm hw
    refine ⟨hrun, ?_⟩
    obtain ⟨job, slot⟩ := w
    cases f with
    | none => exact hunspent
    | some f =>
      intro hspent
      cases slot with
      | empty => cases f <;> cases hspent
      | spent => exact hunspent rfl
      | full a => cases hspent
      | dropped => cases hspent
  · intro i m' hm'
    obtain ⟨m, hm, f, rfl⟩ := before_of_forall₂ hspread hm'
    exact ⟨m, hm, fun job hjob => by rwa [Member.jobs_hear] at hjob⟩
  · intro i m job _ hm hrun hjob _ _
    obtain ⟨m', hm', f, rfl⟩ := after_of_forall₂ hspread hm
    exact ⟨_, hm', hrun, by rwa [Member.jobs_hear]⟩

/-! ## Moves -/

/-- Whoever has asked and hears nothing of the store's decision has been parked, or it was about
somebody else. -/
theorem OnRecord.minds_served (onRecord : s.OnRecord) {r : Request Requester}
    {rest : List Command} (hrun : s.keeper.running = true)
    (hentries : s.keeper.inbox.entries = .request r :: rest)
    (hx : ((s.stored rest (s.keeper.store.handle s.isPresent r).1).tell
      ((s.keeper.store.handle s.isPresent r).2.fates r.who)).Expects x) :
    ((s.stored rest (s.keeper.store.handle s.isPresent r).1).tell
      ((s.keeper.store.handle s.isPresent r).2.fates r.who)).Minds x := by
  obtain ⟨hbefore, hunheard⟩ := expects_tell hx
  have hexpects : s.Expects x := hbefore
  rw [Minds, Lists, keeper_tell]
  refine ⟨hrun, ?_⟩
  rcases (onRecord.minded x hexpects).2 with ⟨command, hmem, rfl⟩ | ⟨k, hwaits⟩
  · rw [hentries] at hmem
    rcases List.mem_cons.mp hmem with rfl | hmem
    · right
      obtain ⟨d, hparked⟩ := Store.parked_of_unheard hunheard
      refine ⟨r.key, ?_⟩
      change (s.keeper.store.handle s.isPresent r).1.waiter r.key = some r.who
      rw [Store.waiter_handle, hparked]
      exact if_pos rfl
    · exact Or.inl ⟨command, hmem, rfl⟩
  · exact Or.inr ⟨k, Store.waits_of_unheard hwaits (onRecord.isPresent hexpects) hunheard⟩

/-- The store parks only whoever has sent it a message. -/
theorem lists_served {r : Request Requester} {rest : List Command} {fates : List (Requester × Fate)}
    (hentries : s.keeper.inbox.entries = .request r :: rest)
    (hx : ((s.stored rest (s.keeper.store.handle s.isPresent r).1).tell fates).Lists x) :
    s.Lists x := by
  rw [Lists, keeper_tell] at hx
  rw [Lists, hentries]
  rcases hx with ⟨command, hmem, hsender⟩ | ⟨k, hwaits⟩
  · exact Or.inl ⟨command, List.mem_cons_of_mem _ hmem, hsender⟩
  · rcases Store.waiter_cases hwaits with ⟨hbefore, _⟩ | ⟨_, hwho, _⟩
    · exact Or.inr ⟨k, hbefore⟩
    · exact Or.inl ⟨.request r, List.mem_cons_self, hwho⟩

theorem onRecord_serve (onRecord : s.OnRecord) (h : s.serve = some (t, e)) : t.OnRecord := by
  have honward : s.Onward t := onward_fire (show s.fire .serve = _ from h)
  obtain ⟨hrun, rest, ⟨r, hentries, rfl, _⟩ | ⟨c, hentries, rfl, _⟩⟩ := serve_cases h
  · refine onRecord.spread honward (spread_tell (s := s.stored rest _) _) (fun x hx => ?_)
      fun c hlists => lists_served hentries hlists
    exact onRecord.minds_served hrun hentries hx
  · refine onRecord.spread honward (spread_of_members rfl) (fun x hx => ?_) fun c' hlists => ?_
    swap
    · rw [Lists, hentries]
      rcases hlists with ⟨command, hmem, hsender⟩ | hwaits
      · exact Or.inl ⟨command, List.mem_cons_of_mem _ hmem, hsender⟩
      · exact Or.inr hwaits
    -- the message that was first in the inbox is of nobody who still expects something
    have hne : x ≠ .caller c := by
      rintro rfl
      obtain ⟨call', hcall', _, hopen⟩ := hx
      rcases onCall_cases hcall' with ⟨_, call, _, rfl⟩ | ⟨hne, _⟩
      · exact absurd hopen (Call.not_open_receive (by simp))
      · exact hne rfl
    have hexpects := expects_before (ages_of_onward honward)
      (fun i m' job hm' hopen => ⟨m', hm', hopen⟩) hx
    refine ⟨hrun, ?_⟩
    rcases (onRecord.minded x hexpects).2 with ⟨command, hmem, rfl⟩ | hwaits
    · rw [hentries] at hmem
      rcases List.mem_cons.mp hmem with rfl | hmem
      · exact absurd rfl hne
      · exact Or.inl ⟨command, hmem, rfl⟩
    · exact Or.inr hwaits

/-- A member that has settled a job has one job less and waits for nothing. -/
theorem OnRecord.answered {m' : Member} {r : ClientReply} (onRecord : s.OnRecord)
    (hm : s.members[i]? = some m) (hrun : m'.running = true) (hidle : m'.work = none)
    (hless : ∀ job' ∈ m'.jobs, job' ∈ m.jobs)
    (hrest : ∀ job' ∈ m.jobs, job' ≠ job → job' ∈ m'.jobs) :
    ((s.onMember i fun _ => m').answer job r).OnRecord := by
  have hages := ages_of_onward (onward_answer (s := s.onMember i fun _ => m') job r)
  refine onRecord.change hages (fun x => onRecord.minds rfl hages ?_) (fun c hlists => hlists)
    ?_ ?_ ?_
  · intro j n job' hn hopen
    rcases onMember_cases hn with ⟨_, _, _, rfl⟩ | ⟨_, hn⟩
    · rw [hidle] at hopen
      cases hopen
    · exact ⟨n, hn, hopen⟩
  · intro j n w hn hwork
    rcases onMember_cases hn with ⟨_, _, _, rfl⟩ | ⟨_, hn⟩
    · rw [hidle] at hwork
      cases hwork
    · exact onRecord.workers j n w hn hwork
  · refine jobs_onMember fun n hn => ?_
    obtain rfl := Option.some.inj (hm.symm.trans hn)
    exact hless
  · intro j n job' call' hn hrun' hjob' hcall' hopen
    have hne : job' ≠ job := by
      rintro rfl
      rcases onCall_cases hcall' with ⟨_, call, _, rfl⟩ | ⟨hne, _⟩
      · exact absurd hopen (Call.not_open_receive (by simp))
      · exact hne rfl
    refine job_onMember (fun n' hn' _ hjob'' => ?_) j n hn hrun' hjob'
    obtain rfl := Option.some.inj (hm.symm.trans hn')
    exact ⟨hrun, hrest _ hjob'' hne⟩

/-- A member that asks the store has a message in its inbox. -/
theorem OnRecord.asked {m' : Member} {command : Command} (onRecord : s.OnRecord)
    (hm : s.members[i]? = some m) (hkeeper : s.keeper.running = true) (hrun : m'.running = true)
    (hwork : m'.work = some ⟨job, .empty⟩) (hsame : m'.jobs = m.jobs)
    (hsender : command.sender = .client i) :
    ((s.onMember i fun _ => m').send command).OnRecord := by
  have hcalls : List.Forall₂ Call.Ages s.calls ((s.onMember i fun _ => m').send command).calls :=
    ages_of_onward (onward_of_calls rfl)
  refine onRecord.change hcalls ?_ ?_ ?_ ?_ ?_
  · intro x hx
    refine ⟨hkeeper, ?_⟩
    rw [Lists, entries_send]
    by_cases hself : x = .client i
    · exact Or.inl ⟨command, by simp, hsender.trans hself.symm⟩
    · have hexpects : s.Expects x := by
        cases x with
        | client j =>
          obtain ⟨n, job', hn, hopen⟩ := hx
          rcases onMember_cases hn with ⟨rfl, _⟩ | ⟨_, hn⟩
          · exact absurd rfl hself
          · exact ⟨n, job', hn, hopen⟩
        | caller c => exact hx
      rcases (onRecord.minded x hexpects).2 with ⟨command', hmem, hsender'⟩ | hwaits
      · exact Or.inl ⟨command', List.mem_append_left _ hmem, hsender'⟩
      · exact Or.inr hwaits
  · intro c hlists
    rw [Lists, entries_send] at hlists
    rcases hlists with ⟨command', hmem, hsender'⟩ | hwaits
    · rcases List.mem_append.mp hmem with hmem | hmem
      · exact Or.inl ⟨command', hmem, hsender'⟩
      · rw [List.mem_singleton.mp hmem, hsender] at hsender'
        cases hsender'
    · exact Or.inr hwaits
  · intro j n w hn hw
    rcases onMember_cases hn with ⟨_, _, _, rfl⟩ | ⟨_, hn⟩
    · obtain rfl := Option.some.inj (hwork.symm.trans hw)
      refine ⟨hrun, fun hspent => ?_⟩
      cases hspent
    · exact onRecord.workers j n w hn hw
  · refine jobs_onMember fun n hn => ?_
    obtain rfl := Option.some.inj (hm.symm.trans hn)
    rw [hsame]
    exact fun job' hjob' => hjob'
  · intro j n job' call' hn hrun' hjob' _ _
    refine job_onMember (fun n' hn' _ hjob'' => ?_) j n hn hrun' hjob'
    obtain rfl := Option.some.inj (hm.symm.trans hn')
    exact ⟨hrun, hsame ▸ hjob''⟩

theorem onRecord_begin (onRecord : s.OnRecord) (h : s.begin i = some (t, e)) : t.OnRecord := by
  obtain ⟨m, job, rest, cache, hm, hrun, hidle, hentries, hcases⟩ := begin_cases h
  have hjobs : m.jobs = job :: rest := by
    rw [Member.jobs, hidle, hentries]
    rfl
  have hless : ∀ job' ∈ rest, job' ∈ m.jobs := by
    rw [hjobs]
    exact fun job' hjob' => List.mem_cons_of_mem job hjob'
  have hrest : ∀ job' ∈ m.jobs, job' ≠ job → job' ∈ rest := by
    rw [hjobs]
    exact fun job' hjob' hne => (List.mem_cons.mp hjob').resolve_left hne
  obtain ⟨r, _, rfl, _⟩ | ⟨_, hkeeper, rfl, _⟩ | ⟨_, _, last, r, _, rfl, _⟩ := hcases
  · have hleft : (m.take cache rest).jobs = rest := by
      rw [Member.jobs, Member.take, hidle]
      rfl
    refine onRecord.answered hm hrun hidle ?_ ?_
    · rwa [hleft]
    · rwa [hleft]
  · exact onRecord.asked hm hkeeper hrun rfl (hjobs ▸ rfl) rfl
  · exact onRecord.answered hm hrun rfl hless hrest

theorem onRecord_resume (onRecord : s.OnRecord) (h : s.resume i = some (t, e)) : t.OnRecord := by
  obtain ⟨m, job, slot, answer, cache, r, hm, hwork, _, _, rfl, _⟩ := resume_cases h
  have hjobs : m.jobs = job :: m.inbox.entries := by
    rw [Member.jobs, hwork]
    rfl
  have hless : ∀ job' ∈ m.inbox.entries, job' ∈ m.jobs := by
    rw [hjobs]
    exact fun job' hjob' => List.mem_cons_of_mem job hjob'
  have hrest : ∀ job' ∈ m.jobs, job' ≠ job → job' ∈ m.inbox.entries := by
    rw [hjobs]
    exact fun job' hjob' hne => (List.mem_cons.mp hjob').resolve_left hne
  have hrun : m.running = true := (onRecord.workers i m _ hm hwork).1
  refine onRecord.answered hm ?_ rfl hless hrest
  exact hrun

/-- A member may stop if none of its jobs belongs to a call that still expects something. -/
theorem OnRecord.halted (onRecord : s.OnRecord)
    (hcalls : List.Forall₂ Call.Ages s.calls t.calls)
    (hmembers : t.members = (s.onMember i .halt).members) (hminded : ∀ x, t.Expects x → t.Minds x)
    (hlists : ∀ c, t.Lists (.caller c) → s.Lists (.caller c))
    (hdone : ∀ m job call', s.members[i]? = some m → job ∈ m.jobs →
      t.calls[job.call]? = some call' → ¬ call'.Open) : t.OnRecord := by
  refine onRecord.change hcalls hminded hlists ?_ ?_ ?_
  · intro j n w hn hw
    rw [hmembers] at hn
    rcases onMember_cases hn with ⟨_, _, _, rfl⟩ | ⟨_, hn⟩
    · cases hw
    · exact onRecord.workers j n w hn hw
  · intro j n hn
    rw [hmembers] at hn
    refine jobs_onMember (fun m _ job' hjob' => ?_) j n hn
    cases hjob'
  · intro j n job' call' hn hrun hjob' hcall' hopen
    rw [hmembers]
    have hne : j ≠ i := by
      rintro rfl
      exact hdone n job' call' hn hjob' hcall' hopen
    exact ⟨n, by rw [members_onMember, if_neg (Ne.symm hne), hn], hrun, hjob'⟩

theorem onRecord_leave (onRecord : s.OnRecord) (h : s.leave i = some (t, e)) : t.OnRecord := by
  obtain ⟨m, hm, _, hidle, hentries, _, rfl, _⟩ := leave_cases h
  have hages : List.Forall₂ Call.Ages s.calls (s.onMember i .halt).calls :=
    ages_of_onward (onward_of_calls rfl)
  refine onRecord.halted (i := i) hages rfl (fun x => onRecord.minds rfl hages ?_)
    (fun c hlists => hlists) ?_
  · intro j n job' hn hopen
    rcases onMember_cases hn with ⟨_, _, _, rfl⟩ | ⟨_, hn⟩
    · cases hopen
    · exact ⟨n, hn, hopen⟩
  · intro n job' call' hn hjob' _
    obtain rfl := Option.some.inj (hm.symm.trans hn)
    rw [Member.jobs, hidle, hentries] at hjob'
    cases hjob'

/-- When the store retires, nobody is left who could expect anything. -/
theorem onRecord_retire (onRecord : s.OnRecord) (h : s.retire = some (t, e)) : t.OnRecord := by
  have honward : s.Onward t := onward_fire (show s.fire .retire = _ from h)
  obtain ⟨_, _, hreaches, rfl, _⟩ := retire_cases h
  have hspread : s.Spread s.dropWaiters := by
    rw [dropWaiters_eq_tell]
    exact spread_tell _
  refine onRecord.spread honward hspread (fun x hx => ?_)
    fun c hlists => absurd hlists (not_lists_of_halt rfl)
  have hdropped : s.dropWaiters.Expects x := hx
  rw [dropWaiters_eq_tell] at hdropped
  have hexpects := (expects_tell hdropped).1
  simp only [reachesStore, Bool.or_eq_false_iff, List.any_eq_false] at hreaches
  cases x with
  | client i =>
    obtain ⟨m, job, hm, hwork⟩ := hexpects
    exact absurd (onRecord.workers i m _ hm hwork).1 (hreaches.1.2 m (List.mem_of_getElem? hm))
  | caller c =>
    obtain ⟨call, hcall, hstore, held, hopen⟩ := hexpects
    refine absurd ?_ (hreaches.2 call (List.mem_of_getElem? hcall))
    unfold Call.onStore
    split
    · rename_i htarget
      exact absurd htarget (hstore _ _ _)
    · rw [Call.isPending, hopen]
      rfl

/-- A change of one call alone. -/
theorem OnRecord.onCall {f : Call → Call} (onRecord : s.OnRecord)
    (hf : ∀ call, s.calls[n]? = some call → call.Ages (f call)) : (s.onCall n f).OnRecord := by
  have hages := ages_onCall hf
  refine onRecord.change hages (fun x => onRecord.minds rfl hages ?_) (fun c hlists => hlists)
    onRecord.workers ?_ ?_
  · exact fun i m job hm hopen => ⟨m, hm, hopen⟩
  · exact fun i m hm => ⟨m, hm, fun job hjob => hjob⟩
  · exact fun i m job call' hm hrun hjob _ _ => ⟨m, hm, hrun, hjob⟩

theorem onRecord_fire {mv : Move} (onRecord : s.OnRecord) (h : s.fire mv = some (t, e)) :
    t.OnRecord := by
  cases mv with
  | serve => exact onRecord_serve onRecord h
  | begin i => exact onRecord_begin onRecord h
  | resume i => exact onRecord_resume onRecord h
  | leave i => exact onRecord_leave onRecord h
  | retire => exact onRecord_retire onRecord h
  | finish c =>
    have honward : s.Onward t := onward_finish h
    obtain ⟨_, _, _, _, rfl, _⟩ := finish_cases h
    apply onRecord.onCall
    intro call hcall
    obtain ⟨call', hcall', hbecomes⟩ := honward.after hcall
    rw [calls_onCall, if_pos rfl, hcall] at hcall'
    obtain rfl := Option.some.inj hcall'
    exact hbecomes.ages

end Cluster

end Custody
