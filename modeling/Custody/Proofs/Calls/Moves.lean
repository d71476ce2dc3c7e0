import Custody.Proofs.Calls.Kept

/-!
# Every move keeps what is known

The store's verdicts show on the docket, a client's answers in the history. An actor that stops
leaves nothing behind that somebody waits for.
-/

namespace Custody

namespace Cluster

variable {s t : Cluster} {es : List Event} {e : Event} {i : Nat} {m : Member} {job : Job}

theorem kept_serve (kept : s.Kept es) (h : s.serve = some (t, e)) : t.Kept (es ++ [e]) := by
  have attended := attended_fire kept.attended (m := .serve) h
  have booked := booked_serve kept.traced kept.booked h
  have stocked := stocked_serve kept.stocked kept.traced h
  obtain ⟨hrun, rest, ⟨r, hentries, rfl, rfl⟩ | ⟨c, hentries, rfl, rfl⟩⟩ := serve_cases h
  · have hheard : ∀ (i : Nat) m', ((s.stored rest (s.keeper.store.handle s.isPresent r).1).tell
        ((s.keeper.store.handle s.isPresent r).2.fates r.who)).members[i]? = some m' →
        ∃ m f, s.members[i]? = some m ∧ m' = m.hear f := by
      intro i m' hm'
      rw [members_tell] at hm'
      obtain ⟨m, hm, rfl⟩ := Option.map_eq_some_iff.mp hm'
      exact ⟨m, _, hm, rfl⟩
    refine ⟨attended, ?_, ?_, booked, ?_, stocked, ?_⟩
    · refine kept.staffed.change ?_ ?_ ?_
      · intro i m' hm'
        obtain ⟨m, f, hm, rfl⟩ := hheard i m' hm'
        exact ⟨m, hm, fun h => ⟨h, fun hrun => hrun⟩⟩
      · rw [keeper_tell]
        exact kept.staffed.keeper
      · intro hstopped
        rw [keeper_tell] at hstopped
        exact absurd hrun (ne_true_of_eq_false hstopped)
    · rw [docket_served]
      refine Docket.traced_served kept.traced ?_ fun x q => kept.isPresent
      simp [docket, requests, hentries, Command.request?]
    · refine InTurn.log (kept.inTurn.change ?_ fun i m' hm' => ?_) fun i => rfl
      · rw [length_calls_tell, calls_stored]
      · obtain ⟨m, f, hm, rfl⟩ := hheard i m' hm'
        refine ⟨m, hm, List.Sublist.refl _, fun job slot hwork => ?_⟩
        obtain ⟨⟨job', slot'⟩, hwork', hsame⟩ := Option.map_eq_some_iff.mp hwork
        obtain ⟨rfl, _⟩ := Work.mk.inj hsame
        exact ⟨slot', hwork'⟩
    · refine kept.truthful.snoc ?_
      rintro i job r' h
      cases h
  · refine (kept.log (e := .observed c s.keeper.store.snapshot) trivial).change attended ?_ booked
      ⟨rfl, rfl, id, fun _ => ?_⟩ (fun i m hm => ⟨m, hm, rfl, rfl, rfl, id, List.Sublist.refl _⟩) ?_
    · obtain ⟨call, hcall, htarget⟩ := kept.booked.watched c (by simp [hentries])
      have hsame : (s.stored rest s.keeper.store).docket = s.docket := by
        refine docket_eq rfl ?_ (inquiry_congr rfl rfl)
        change rest.filterMap Command.request? = s.requests
        rw [requests, hentries]
        rfl
      rw [docket_onCall_of_other (s := s.stored rest s.keeper.store) hcall (by simp [htarget])
        Call.target_receive, hsame]
      exact (kept.log (e := .observed c s.keeper.store.snapshot) trivial).traced
    · rw [hentries]
      exact List.sublist_cons_self _ _
    · simp [onCall]

/-- A client puts its work aside and tells its caller. -/
theorem Kept.answered {n : Member} {r : ClientReply} (kept : s.Kept es)
    (hm : s.members[i]? = some m) (hjob : job ∈ m.jobs) (hidle : n.work = none)
    (hhandle : n.handle = m.handle) (hrun : n.running = m.running)
    (hentries : n.inbox.entries.Sublist m.inbox.entries)
    (hheard : ∀ q, s.inquiry (.client i) = some q → q.slot ≠ .empty)
    (attended : Attended Rules.lenient ((s.onMember i fun _ => n).answer job r))
    (booked : ((s.onMember i fun _ => n).answer job r).Booked (es ++ [.answered i job r]))
    (stocked : ((s.onMember i fun _ => n).answer job r).Stocked) (right : Right es i job r) :
    ((s.onMember i fun _ => n).answer job r).Kept (es ++ [.answered i job r]) := by
  refine ⟨attended, ?_, ?_, booked, ?_, stocked, ?_⟩
  · have staffed : (s.onMember i fun _ => n).Staffed := kept.staffed.onMember fun m' hm' h => by
      obtain rfl := Option.some.inj (hm.symm.trans hm')
      exact ⟨hhandle ▸ h, fun h => hrun.trans h⟩
    exact ⟨staffed.member, staffed.keeper, staffed.cleared⟩
  · obtain ⟨call, manner, hcall, htarget, _⟩ := kept.booked.placed i m job hm hjob
    rw [answer, docket_onCall_of_other (s := s.onMember i fun _ => n) hcall (by simp [htarget])
      Call.target_receive, docket_closed (f := fun _ => n) hm hidle]
    refine (kept.traced.closed hheard).log (by simp) ?_
    intro x hopens
    cases hopens
  · refine InTurn.log (kept.inTurn.change ?_ fun j m' hm' => ?_) fun j => rfl
    · rw [answer, length_calls_onCall, calls_onMember]
    · rcases onMember_cases hm' with ⟨rfl, _, _, rfl⟩ | ⟨_, hm'⟩
      · refine ⟨m, hm, hentries, fun job' slot hwork => ?_⟩
        rw [hidle] at hwork
        cases hwork
      · exact ⟨m', hm', List.Sublist.refl _, fun job' slot hwork => ⟨slot, hwork⟩⟩
  · refine kept.truthful.snoc ?_
    rintro j job' r' h
    obtain ⟨rfl, rfl, rfl⟩ := Event.answered.inj h
    exact right

theorem kept_begin (kept : s.Kept es) (h : s.begin i = some (t, e)) : t.Kept (es ++ [e]) := by
  obtain ⟨m, job, rest, cache, hm, hrun, hwork, hentries, hcases⟩ := begin_cases h
  have hkeeper := kept.keeper_of_running hm hrun
  have attended := attended_begin kept.attended h
  have booked := booked_begin kept.booked h hkeeper
  have stocked := stocked_begin kept.stocked h hkeeper
  have hidle : s.inquiry (.client i) = none := inquiry_of_idle hm hwork
  obtain ⟨r, hstart, rfl, rfl⟩ | ⟨hstart, _, rfl, rfl⟩ | ⟨_, hstopped, _⟩ := hcases
  · refine kept.answered (n := m.take cache rest) hm ?_ hwork rfl rfl ?_ ?_ attended booked stocked
      (right_of_start hstart (kept.inTurn.unasked hm hentries))
    · exact Member.mem_jobs.mpr (Or.inr (by simp [hentries]))
    · rw [hentries]
      exact List.sublist_cons_self job rest
    · rw [hidle]
      simp
  · refine ⟨attended, ?_, ?_, booked, kept.inTurn.ask hm hentries, stocked, ?_⟩
    · have staffed : (s.onMember i fun _ =>
          { m.take cache rest with work := some ⟨job, .empty⟩ }).Staffed :=
        kept.staffed.onMember fun m' hm' h => by
          obtain rfl := Option.some.inj (hm.symm.trans hm')
          exact ⟨h, id⟩
      refine ⟨staffed.member, staffed.keeper, fun hstopped => ?_⟩
      exact absurd hkeeper (ne_true_of_eq_false hstopped)
    · rw [docket_asked hm]
      refine Docket.Traced.opened (kept.traced.log (by simp) fun x hopens => ?_) hidle ?_
      · obtain rfl : x = .client i := by simpa [Event.opens] using hopens
        exact hidle
      · rw [since_snoc]
        simpa [Event.opens] using not_displaced_nil
    · refine kept.truthful.snoc ?_
      rintro j job' r h
      cases h
  · rw [hkeeper] at hstopped
    cases hstopped

/-- What a client has heard is the news of the read or write it asked for. -/
theorem Kept.lost (kept : s.Kept es) {slot : Slot StoreReply} (hm : s.members[i]? = some m)
    (hwork : m.work = some ⟨job, slot⟩) :
    slot = .dropped ↔ job.action.operation = .read ∧ Overtaken es i job := by
  obtain ⟨past, hsplit⟩ := kept.inTurn.asked i m job slot hm hwork
  have honce : (asks es i).Nodup :=
    (List.pairwise_append.mp (kept.inTurn.rising i m hm)).1.imp Nat.ne_of_lt
  have hlost := kept.traced.lost (.client i) _ (inquiry_of_work hm hwork) rfl
  rw [overtaken_iff honce hsplit]
  refine Iff.trans ?_ hlost
  cases slot <;> simp [Slot.map]

theorem kept_resume (kept : s.Kept es) (h : s.resume i = some (t, e)) : t.Kept (es ++ [e]) := by
  have hrunning : ∀ m, s.members[i]? = some m → m.work ≠ none → m.running = true :=
    fun m hm => kept.running_of_work hm
  have attended := attended_fire kept.attended (m := .resume i) h
  have booked := booked_resume kept.booked h hrunning
  have stocked := stocked_resume kept.stocked h hrunning
  obtain ⟨m, job, slot, answer, cache, r, hm, hwork, hanswer, hfinish, rfl, rfl⟩ := resume_cases h
  have hrun := hrunning m hm (by simp [hwork])
  have hasked : .asked i job ∈ es := by
    obtain ⟨past, hsplit⟩ := kept.inTurn.asked i m job slot hm hwork
    rw [hsplit]
    simp
  refine kept.answered (n := { m with cache, work := none }) hm ?_ rfl rfl rfl (List.Sublist.refl _)
    ?_ attended booked stocked ?_
  · exact Member.mem_jobs.mpr (Or.inl ⟨slot, hwork⟩)
  · intro q hq
    obtain rfl := Option.some.inj ((inquiry_of_work hm hwork).symm.trans hq)
    cases slot with
    | empty => cases hanswer
    | full u => simp [Slot.map]
    | dropped => simp [Slot.map]
    | spent => simp [Slot.map]
  · exact (kept.stocked.sure i m job slot hm hrun hwork).right hanswer hfinish
      (kept.lost hm hwork) hasked

theorem kept_leave (kept : s.Kept es) (h : s.leave i = some (t, e)) : t.Kept (es ++ [e]) := by
  have attended := attended_fire kept.attended (m := .leave i) h
  have booked := booked_leave kept.booked h
  obtain ⟨m, hm, _, hidle, hentries, hreaches, rfl, rfl⟩ := leave_cases h
  have hclosed : m.handle = false := by
    simp only [reaches, Bool.or_eq_false_iff] at hreaches
    exact hreaches.1
  have kept' := kept.log (e := .left i) trivial
  refine ⟨attended, ?_, ?_, booked, ?_, ?_, kept'.truthful⟩
  · refine kept.staffed.onMember fun n hn h => ?_
    obtain rfl := Option.some.inj (hm.symm.trans hn)
    exact absurd h (ne_true_of_eq_false hclosed)
  · rw [docket_closed hm rfl]
    refine kept'.traced.closed fun q hq => ?_
    cases (inquiry_of_idle hm hidle).symm.trans hq
  · refine kept'.inTurn.change (Nat.le_refl _) fun j m' hm' => ?_
    rcases onMember_cases hm' with ⟨rfl, n, hn, rfl⟩ | ⟨_, hm'⟩
    · refine ⟨n, hn, List.nil_sublist _, fun job slot hwork => ?_⟩
      cases hwork
    · exact ⟨m', hm', List.Sublist.refl _, fun job slot hwork => ⟨slot, hwork⟩⟩
  · refine kept'.stocked.change rfl fun j m' hm' hrun => ?_
    rcases onMember_cases hm' with ⟨rfl, n, hn, rfl⟩ | ⟨_, hm'⟩
    · cases hrun
    · exact ⟨m', hm', hrun, rfl, rfl⟩

/-- When nobody can reach the store, all clients have stopped, and a caller that is still parked
has gone away. -/
theorem Kept.unreached (kept : s.Kept es) (hreaches : s.reachesStore = false) :
    s.keeper.handle = false ∧
      (∀ (i : Nat) m, s.members[i]? = some m → m.running = false ∧ m.work = none) ∧
      ∀ (c : Nat) call q, s.calls[c]? = some call → call.inquiry? = some q → q.slot = .empty →
        call.status = .cancelled := by
  simp only [reachesStore, Bool.or_eq_false_iff, List.any_eq_false] at hreaches
  obtain ⟨⟨hhandle, hmembers⟩, hcalls⟩ := hreaches
  refine ⟨hhandle, ?_, ?_⟩
  · intro i m hm
    have hstopped : m.running = false := by simpa using hmembers m (List.mem_of_getElem? hm)
    exact ⟨hstopped, (kept.attended.orderly i m hm).1 hstopped⟩
  · intro c call q hcall hq hopen
    obtain ⟨htarget, _, hslot, _⟩ := Call.target_of_inquiry hq
    rcases Status.open_cases (hslot.trans hopen) with hgone | ⟨held, hpending⟩
    · exact hgone
    · have hon := hcalls call (List.mem_of_getElem? hcall)
      simp [Call.onStore, htarget, Call.isPending, hpending, Status.isPending] at hon

/-- Whoever is parked when nobody can reach the store has gone away. -/
theorem Kept.gone_of_unreached {x : Requester} {k : Key} (kept : s.Kept es)
    (hreaches : s.reachesStore = false) (hwaits : s.keeper.store.waiter k = some x) :
    ∃ c call, x = .caller c ∧ s.calls[c]? = some call ∧ call.status = .cancelled := by
  obtain ⟨_, hmembers, hcalls⟩ := kept.unreached hreaches
  obtain ⟨⟨q, hq, _, _, hopen⟩, _⟩ := kept.traced.parked k x hwaits
  cases x with
  | client i =>
    obtain ⟨m, w, hm, hwork, _⟩ := inquiry_client.mp hq
    rw [(hmembers i m hm).2] at hwork
    cases hwork
  | caller c =>
    obtain ⟨call, hcall, hq⟩ := inquiry_caller.mp hq
    exact ⟨c, call, rfl, hcall, hcalls c call q hcall hq hopen⟩

/-- The news that the store has stopped reaches nobody. -/
theorem Kept.dropWaiters (kept : s.Kept es) (hreaches : s.reachesStore = false) :
    s.dropWaiters.members = s.members ∧ s.dropWaiters.calls = s.calls := by
  obtain ⟨_, hmembers, _⟩ := kept.unreached hreaches
  rw [dropWaiters_eq_tell]
  constructor
  · refine List.ext_getElem? fun i => ?_
    rw [members_tell]
    cases hm : s.members[i]? with
    | none => rfl
    | some m =>
      have hidle := (hmembers i m hm).2
      simp only [Option.map_some, Member.hear, hidle, Option.map_none]
      rw [← hidle]
  · refine List.ext_getElem? fun c => ?_
    rw [calls_tell]
    cases hcall : s.calls[c]? with
    | none => rfl
    | some call =>
      refine congrArg some ?_
      cases hlookup : (s.keeper.store.waiters.toList.map fun w =>
          (w.2, Fate.discarded)).lookup (.caller c) with
      | none => rfl
      | some f =>
        -- only a caller that has gone away can still be parked
        obtain ⟨k, hwaiter⟩ := waiter_of_lookup hlookup
        obtain ⟨c', call', hc, hcall', hgone⟩ := kept.gone_of_unreached hreaches hwaiter
        obtain rfl := Requester.caller.inj hc
        obtain rfl := Option.some.inj (hcall.symm.trans hcall')
        simp only [Call.hear, Call.receive, hgone]

theorem kept_retire (kept : s.Kept es) (h : s.retire = some (t, e)) : t.Kept (es ++ [e]) := by
  have attended := attended_retire kept.attended h
  obtain ⟨hrun, hentries, hreaches, rfl, rfl⟩ := retire_cases h
  obtain ⟨hhandle, hidle, hgone⟩ := kept.unreached hreaches
  obtain ⟨hmembers, hcalls⟩ := kept.dropWaiters hreaches
  have kept' := kept.log (e := .retired) trivial
  refine ⟨attended, ?_, ?_, ?_, ?_, ?_, kept'.truthful⟩
  · refine kept.staffed.change ?_ ?_ fun _ => rfl
    · exact fun i m hm => ⟨m, hmembers ▸ hm, fun h => ⟨h, id⟩⟩
    · exact fun h => absurd h (ne_true_of_eq_false hhandle)
  · have hempty : Cluster.docket { s.dropWaiters with keeper := s.keeper.halt } =
        ⟨{}, [], s.docket.inquiry⟩ := docket_eq rfl rfl (inquiry_congr hmembers hcalls)
    rw [hempty]
    refine kept'.traced.emptied fun x q hq hlive hopen => ?_
    cases x with
    | client i =>
      obtain ⟨m, w, hm, hw, _⟩ := inquiry_client.mp hq
      rw [(hidle i m hm).2] at hw
      cases hw
    | caller c =>
      obtain ⟨call, hcall, hq⟩ := inquiry_caller.mp hq
      have hheeds := (Call.target_of_inquiry hq).2.2.2
      rw [hgone c call q hcall hq hopen, hlive] at hheeds
      cases hheeds
  · refine kept.booked.stay hcalls ?_ ?_ fun c => ?_
    · exact fun i m hm => ⟨m, hmembers ▸ hm, fun job hjob => hjob⟩
    · exact fun i m job hm hrun hjob => ⟨m, hmembers.symm ▸ hm, hrun, hjob⟩
    · rw [hentries]
      rfl
  · refine kept'.inTurn.change ?_ fun i m hm => ?_
    · exact Nat.le_of_eq (congrArg List.length hcalls.symm)
    · exact ⟨m, hmembers ▸ hm, List.Sublist.refl _, fun job slot hwork => ⟨slot, hwork⟩⟩
  · have hnobody : ∀ (i : Nat) m, s.dropWaiters.members[i]? = some m → m.running ≠ true := by
      intro i m hm
      rw [hmembers] at hm
      exact ne_true_of_eq_false (hidle i m hm).1
    exact ⟨fun i m k v hm hrun => absurd hrun (hnobody i m hm),
      fun i m job slot hm hrun => absurd hrun (hnobody i m hm)⟩

theorem kept_finish {c : Nat} (kept : s.Kept es) (h : s.finish c = some (t, e)) :
    t.Kept (es ++ [e]) := by
  have booked := booked_finish kept.booked h
  obtain ⟨call, o, hcall, ho, rfl, rfl⟩ := finish_cases h
  have hsame : (Status.ended o).receipt = call.status.receipt ∧ call.status.heeds = true := by
    unfold outcome? at ho
    split at ho
    · rename_i a hstatus
      rw [← Option.some.inj ho, hstatus]
      exact ⟨rfl, rfl⟩
    · rename_i hstatus
      rw [← Option.some.inj ho, hstatus]
      exact ⟨rfl, rfl⟩
    · rename_i hstatus
      rw [← Option.some.inj ho, hstatus]
      exact ⟨rfl, rfl⟩
    · cases ho
  exact (kept.log (e := .ended c o) trivial).marked hcall hsame.1 hsame.2.symm booked

theorem kept_fire {mv : Move} (kept : s.Kept es) (h : s.fire mv = some (t, e)) :
    t.Kept (es ++ [e]) := by
  cases mv with
  | serve => exact kept_serve kept h
  | begin i => exact kept_begin kept h
  | resume i => exact kept_resume kept h
  | leave i => exact kept_leave kept h
  | retire => exact kept_retire kept h
  | finish c => exact kept_finish kept h

end Cluster

end Custody
