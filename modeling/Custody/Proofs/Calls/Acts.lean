import Custody.Proofs.Calls.Moves

/-!
# Every act but a kill keeps what is known

A new call finds its actor at work. A caller that gives up takes back its own job or message at
most, and handles that are let go of concern nobody that waits.
-/

namespace Custody

namespace Cluster

variable {s t : Cluster} {es : List Event} {e : Event} {i : Nat} {m : Member} {job : Job}

theorem kept_call {target : Target} {k : Key} (kept : s.Kept es) (h : s.call target k = some t) :
    t.Kept es := by
  have attended := attended_call kept.attended h
  have booked := booked_call kept.booked h kept.staffed.member kept.staffed.keeper
  cases target with
  | client i act manner =>
    obtain ⟨m, hm, hhandle, ⟨hrun, rfl⟩ | ⟨hstopped, _⟩⟩ := call_client_cases h
    · have hmembers : ∀ (j : Nat) m', ((s.enter (.client i act manner) k
          (.pending (Target.client i act manner).isHeld .empty)).onMember i fun m =>
            { m with inbox := m.inbox.push ⟨s.calls.length, act, k⟩ }).members[j]? = some m' →
          ∃ m, s.members[j]? = some m ∧ m'.cache = m.cache ∧ m'.work = m.work ∧
            m'.running = m.running ∧ m'.handle = m.handle := by
        intro j m' hm'
        rcases onMember_cases hm' with ⟨_, m, hm, rfl⟩ | ⟨_, hm'⟩
        · exact ⟨m, hm, rfl, rfl, rfl, rfl⟩
        · exact ⟨m', hm', rfl, rfl, rfl, rfl⟩
      refine ⟨attended, ?_, ?_, booked, kept.inTurn.sent, ?_, kept.truthful⟩
      · refine kept.staffed.change ?_ kept.staffed.keeper kept.staffed.cleared
        intro j m' hm'
        obtain ⟨m, hm, _, _, hsame, hhandle⟩ := hmembers j m' hm'
        exact ⟨m, hm, fun h => ⟨hhandle ▸ h, fun hrun => hsame.trans hrun⟩⟩
      · rw [docket_onMember_of_same, docket_entered (by simp)]
        · exact kept.traced
        · exact fun m => rfl
      · refine kept.stocked.change rfl fun j m' hm' hrun => ?_
        obtain ⟨m, hm, hcache, hwork, hsame, _⟩ := hmembers j m' hm'
        exact ⟨m, hm, hsame ▸ hrun, hcache, hwork⟩
    · rw [kept.staffed.member i m hm hhandle] at hstopped
      cases hstopped
  | store op =>
    obtain ⟨hhandle, ⟨hrun, rfl⟩ | ⟨hstopped, _⟩⟩ := call_store_cases h
    · refine kept.change attended ?_ booked ⟨rfl, rfl, id, fun hstopped => ?_⟩
        (fun i m hm => ⟨m, hm, rfl, rfl, rfl, id, List.Sublist.refl _⟩) ?_
      · rw [docket_posted]
        refine kept.traced.opened s.inquiry_next ?_
        rw [since_caller]
        -- a caller that has not been there before has not been parked
        rintro ⟨early, r, late, hes, _⟩
        refine kept.traced.known s.calls.length r ?_ s.inquiry_next
        rw [hes]
        simp
      · exact absurd hrun (ne_true_of_eq_false hstopped)
      · simp [enter]
    · rw [kept.staffed.keeper hhandle] at hstopped
      cases hstopped
  | snapshot =>
    obtain ⟨hhandle, ⟨hrun, rfl⟩ | ⟨hstopped, _⟩⟩ := call_snapshot_cases h
    · refine kept.change attended ?_ booked ⟨rfl, rfl, id, fun hstopped => ?_⟩
        (fun i m hm => ⟨m, hm, rfl, rfl, rfl, id, List.Sublist.refl _⟩) ?_
      · have hsame : ((s.enter .snapshot k (.pending false .empty)).send
            (.snapshot s.calls.length)).docket =
            (s.enter .snapshot k (.pending false .empty)).docket := by
          refine docket_eq rfl ?_ (inquiry_congr (members_send _ _) (calls_send _ _))
          rw [requests, entries_send, List.filterMap_append]
          exact List.append_nil _
        rw [hsame, docket_entered (by simp)]
        exact kept.traced
      · exact absurd hrun (ne_true_of_eq_false hstopped)
      · simp [enter]
    · rw [kept.staffed.keeper hhandle] at hstopped
      cases hstopped

theorem kept_take {c : Nat} (kept : s.Kept es) (h : s.take c = some t) : t.Kept es := by
  have booked := booked_take kept.booked h
  obtain ⟨call, hcall, ⟨a, hstatus, rfl⟩ | ⟨hstatus, _⟩ | rfl⟩ := take_held_cases h
  · exact kept.marked hcall (by rw [hstatus]; rfl) (by rw [hstatus]; rfl) booked
  · -- only callers of the store hear that no reply will come, and they do not hold their calls
    have hdropped := (kept.booked.accounted c call hcall).of_dropped (by rw [hstatus]; rfl)
    exact absurd hdropped.1 (Call.not_dropped_of_held hstatus)
  · exact kept

theorem kept_wait {c : Nat} (kept : s.Kept es) (h : s.wait c = some t) : t.Kept es := by
  have booked := booked_wait kept.booked h
  obtain ⟨call, slot, hcall, hstatus, rfl⟩ := wait_held_cases h
  exact kept.marked hcall (by rw [hstatus]; rfl) (by rw [hstatus]; rfl) booked

theorem kept_cancel (kept : s.Kept es) (c : Nat) : (s.cancel c).Kept es := by
  have attended := attended_perform kept.attended (a := .cancel c) trivial rfl
  have booked := booked_cancel kept.booked c
  obtain heq | ⟨call, hcall, _, ⟨i, act, manner, htarget, heq⟩ | ⟨hother, heq⟩⟩ :=
    cancel_target_cases s c
  · rw [heq]
    exact kept
  · rw [heq] at attended booked ⊢
    refine kept.change attended ?_ booked ⟨rfl, rfl, id, fun _ => List.Sublist.refl _⟩ ?_ ?_
    · rw [docket_onCall_of_other (s := s.withdrawJob i c) hcall (by simp [htarget]) rfl,
        withdrawJob, docket_onMember_of_same]
      · exact kept.traced
      · exact fun m => rfl
    · intro j m' hm'
      rcases onMember_cases hm' with ⟨_, m, hm, rfl⟩ | ⟨_, hm'⟩
      · exact ⟨m, hm, rfl, rfl, rfl, id, (entries_withdraw _ _).1⟩
      · exact ⟨m', hm', rfl, rfl, rfl, id, List.Sublist.refl _⟩
    · rw [length_calls_onCall]
      exact Nat.le_refl _
  · rw [heq] at attended booked ⊢
    have hwithdraw := s.requests_withdraw (.caller c)
    refine kept.change attended ?_ booked ⟨rfl, rfl, id, fun _ => (entries_withdraw _ _).1⟩
      (fun i m hm => ⟨m, hm, rfl, rfl, rfl, id, List.Sublist.refl _⟩) ?_
    · cases htarget : call.target with
      | client i act manner => exact absurd htarget (hother i act manner)
      | store op =>
        have hq := Call.inquiry?_of_store htarget
        rw [docket_abandoned hcall hq]
        refine (kept.traced.abandoned (inquiry_of_store hcall htarget)).thinned hwithdraw.1 ?_
        intro p hp q' hq' hlive
        refine hwithdraw.2 p hp ?_
        intro hwho
        simp only [Docket.abandoned, hwho, Function.update_self] at hq'
        rw [← Option.some.inj hq'] at hlive
        cases hlive
      | snapshot =>
        have hthinned : (s.withdraw (.caller c)).docket =
            s.docket.thinned (s.withdraw (.caller c)).requests :=
          docket_eq rfl rfl (inquiry_congr rfl rfl)
        rw [docket_onCall_of_other (s := s.withdraw (.caller c)) hcall (by simp [htarget]) rfl,
          hthinned]
        refine kept.traced.thinned hwithdraw.1 fun p hp q hq _ => hwithdraw.2 p hp ?_
        intro hwho
        have hnone : s.inquiry (.caller c) = none := inquiry_of_other hcall (by simp [htarget])
        cases hnone.symm.trans (hwho ▸ hq)
    · rw [length_calls_onCall]
      exact Nat.le_refl _

theorem kept_perform {a : Act} (kept : s.Kept es) (gentle : (Label.act a).Gentle)
    (h : s.perform a = some t) : t.Kept es := by
  have attended := attended_perform kept.attended gentle.allow h
  cases a with
  | call target k => exact kept_call kept h
  | take c => exact kept_take kept h
  | wait c => exact kept_wait kept h
  | cancel c =>
    obtain rfl := Option.some.inj h
    exact kept_cancel kept c
  | closeClient i =>
    obtain rfl := closeClient_cases h
    refine kept.change attended ?_ ?_ ⟨rfl, rfl, id, fun _ => List.Sublist.refl _⟩ ?_
      (Nat.le_refl _)
    · rw [docket_onMember_of_same]
      · exact kept.traced
      · exact fun m => rfl
    · rw [← List.append_nil es]
      refine kept.booked.stay rfl (jobs_onMember fun m _ job hjob => hjob) ?_ fun c => Iff.rfl
      intro j m job hm hrun hjob
      exact job_onMember (f := fun m => { m with handle := false })
        (fun m _ hrun hjob => ⟨hrun, hjob⟩) j m hm hrun hjob
    · intro j m' hm'
      rcases onMember_cases hm' with ⟨_, m, hm, rfl⟩ | ⟨_, hm'⟩
      · exact ⟨m, hm, rfl, rfl, rfl, nofun, List.Sublist.refl _⟩
      · exact ⟨m', hm', rfl, rfl, rfl, id, List.Sublist.refl _⟩
  | closeStore =>
    obtain rfl := Option.some.inj h
    refine kept.change attended kept.traced ?_
      ⟨rfl, rfl, nofun, fun _ => List.Sublist.refl _⟩
      (fun i m hm => ⟨m, hm, rfl, rfl, rfl, id, List.Sublist.refl _⟩) (Nat.le_refl _)
    rw [← List.append_nil es]
    exact kept.booked.stay rfl (fun i m hm => ⟨m, hm, fun job hjob => hjob⟩)
      (fun i m job hm hrun hjob => ⟨m, hm, hrun, hjob⟩) fun c => Iff.rfl
  | killClient i => exact absurd gentle id
  | killStore => exact absurd gentle id

theorem kept_step {l : Label} {now : List Event} (kept : s.Kept es) (gentle : l.Gentle)
    (h : s.step l = some (t, now)) : t.Kept (es ++ now) := by
  cases l with
  | act a =>
    obtain ⟨hact, rfl⟩ := step_act h
    rw [List.append_nil]
    exact kept_perform kept gentle hact
  | move mv =>
    obtain ⟨e, hfire, rfl⟩ := step_move h
    exact kept_fire kept hfire

theorem kept_run {labels : List Label} {later : List Event} (kept : s.Kept es)
    (gentle : ∀ l ∈ labels, l.Gentle) (h : s.run labels = some (t, later)) :
    t.Kept (es ++ later) :=
  run_induction (P := Kept) (fun _ _ _ _ _ hl hkept hstep => kept_step hkept hl hstep) gentle es
    kept h

end Cluster

end Custody
