import Custody.Proofs.Order.Told

/-!
# What a caller of a client can expect

A call on a client stands in one of five ways after every run. It was given up, or nothing has been
heard of it, or its caller has the client's reply, or the client was killed before it replied, or
the client could not be reached in the first place. In the fourth case nobody will ever reply, and
the caller that waits is told so, unless it has taken notice of that before.
-/

namespace Custody

/-- No reply will come. The caller has been told, or has taken notice, or has ended with `f`, or has
waited in spite of its notice. -/
inductive Status.Forlorn (f : Fault) : Status → Prop where
  | told (held : Bool) : Forlorn f (.pending held .dropped)
  | noticed (held : Bool) : Forlorn f (.pending held .spent)
  | failed : Forlorn f (.ended (.failed f))
  | void : Forlorn f (.ended .void)

/-- The client had stopped, or it was killed while the action was still outside. -/
def Call.Refused (call : Call) : Prop :=
  ∃ name, call.status = .ended (.failed (.failure (.clientUnavailable name)))

/-- How a wait for call `c` should end: with the reply, or with `loss` if there is none. -/
def due (es : List Event) (c : Nat) (loss : Fault) : Outcome :=
  match replyTo es c with
  | some r => .answered (.client r)
  | none => .failed loss

variable {es now : List Event} {c : Nat} {call call' : Call} {f : Fault}

theorem Call.closed_of_refused (h : call.Refused) : ¬ call.Open := by
  rintro ⟨held, hopen⟩
  obtain ⟨name, hended⟩ := h
  cases hopen.symm.trans hended

/-- Only a call that is pending can be refused. -/
theorem Call.refuse_cases (call : Call) (f : Fault) :
    (call.refuse f).status = .ended (.failed f) ∨ call.refuse f = call := by
  obtain ⟨target, key, status⟩ := call
  cases status with
  | pending held slot => exact Or.inl rfl
  | _ => exact Or.inr rfl

theorem replyTo_of_none (hnone : replyTo es c = none) : replyTo (es ++ now) c = replyTo now c := by
  rw [replyTo_append, hnone, Option.none_or]

theorem replyTo_of_some {r : ClientReply} (hreply : replyTo es c = some r) :
    replyTo (es ++ now) c = some r := by
  rw [replyTo_append, hreply, Option.some_or]

namespace Cluster

/-- How call `c` on client `i` stands after a run of `labels` with the events `es`. -/
inductive Prospect (s : Cluster) (labels : List Label) (es : List Event) (i c : Nat)
    (call : Call) : Prop where
  | gone (hgone : call.status = .cancelled)
  | waits (hopen : call.Open) (hnone : replyTo es c = none)
  | told (r : ClientReply) (hreply : replyTo es c = some r)
      (htold : call.status.receipt = .full (.client r))
  | lost (hnone : replyTo es c = none) (hkilled : .act (.killClient i) ∈ labels)
      (hstopped : s.isPresent (.client i) = false)
      (hlost : call.status.Forlorn (.clientDropped (s.nameOf i) call.key))
  | refused (hrefused : call.Refused)

variable {setup : Setup} {s t : Cluster} {l : Label} {labels : List Label} {i : Nat}
  {act : Action} {manner : Manner} {k : Key}

/-! ## Steps -/

theorem isPresent_of_killClient (h : s.killClient i = some t) :
    t.isPresent (.client i) = false := by
  rw [isPresent]
  obtain ⟨m, hm, ⟨_, _, hmembers⟩ | ⟨hstopped, rfl⟩⟩ := killClient_cases h
  · rw [hmembers, members_of_same hm]
    rfl
  · rw [hm]
    exact hstopped

theorem absent_step (h : s.step l = some (t, now)) (hstopped : s.isPresent (.client i) = false) :
    t.isPresent (.client i) = false := by
  by_contra hpresent
  cases hstopped.symm.trans (isPresent_before h (by simpa using hpresent))

/-- A call that is left as it is stands as before, if no reply is given to it, or if it has heard
something from a client that still runs. -/
theorem Prospect.same (prospect : s.Prospect labels es i c call) (h : s.step l = some (t, now))
    (hsame : replyTo now c = none ∨ (¬ call.Open ∧ s.isPresent (.client i) = true)) :
    t.Prospect (labels ++ [l]) (es ++ now) i c call := by
  cases prospect with
  | gone hgone => exact .gone hgone
  | waits hopen hsilent =>
    have hnone := hsame.resolve_right fun hheard => hheard.1 hopen
    exact .waits hopen (by rw [replyTo_of_none hsilent, hnone])
  | told r hreply htold => exact .told r (replyTo_of_some hreply) htold
  | lost hsilent hkilled hstopped hlost =>
    have hnone := hsame.resolve_right fun hheard => by cases hstopped.symm.trans hheard.2
    refine .lost (by rw [replyTo_of_none hsilent, hnone]) (List.mem_append_left _ hkilled)
      (absent_step h hstopped) ?_
    rw [nameOf_step h]
    exact hlost
  | refused hrefused => exact .refused hrefused

theorem Prospect.silent (prospect : s.Prospect labels es i c call) (hopen : call.Open) :
    replyTo es c = none := by
  cases prospect with
  | waits _ hnone => exact hnone
  | lost hnone => exact hnone
  | gone hgone =>
    obtain ⟨held, hopen⟩ := hopen
    cases hopen.symm.trans hgone
  | told r _ htold =>
    obtain ⟨held, hopen⟩ := hopen
    rw [hopen] at htold
    cases htold
  | refused hrefused => exact absurd hopen (Call.closed_of_refused hrefused)

theorem Prospect.others (prospect : s.Prospect labels es i c call) (h : s.step l = some (t, now))
    (affects : s.Affects i c call l now call') :
    t.Prospect (labels ++ [l]) (es ++ now) i c call' := by
  cases affects with
  | kept hnone => exact prospect.same h (Or.inl hnone)
  | @answered _ job r hjob hpresent =>
    by_cases hopen : call.Open
    · have hsilent := prospect.silent hopen
      obtain ⟨held, hstatus⟩ := hopen
      refine .told r ?_ ?_
      · rw [replyTo_of_none hsilent, ← hjob, replyTo_answered]
      · rw [Call.receive, hstatus]
        rfl
    · rw [Call.receive_of_closed hopen]
      exact prospect.same h (Or.inr ⟨hopen, hpresent⟩)
  | spared => exact prospect.same h (Or.inl rfl)
  | dropped =>
    by_cases hopen : call.Open
    · have hsilent := prospect.silent hopen
      obtain ⟨held, hstatus⟩ := hopen
      refine .lost (replyTo_of_none hsilent) (by simp) (isPresent_of_killClient (step_act h).1) ?_
      rw [Call.receive, hstatus]
      exact .told held
    · rw [Call.receive_of_closed hopen]
      exact prospect.same h (Or.inl rfl)
  | refused name =>
    rcases Call.refuse_cases call (.failure (.clientUnavailable name)) with hended | hsame
    · exact .refused ⟨name, hended⟩
    · rw [hsame]
      exact prospect.same h (Or.inl rfl)

/-- A caller that takes note has waited, and something has arrived. -/
theorem receipt_of_outcome {o : Outcome} (ho : s.outcome? call = some o) :
    ∃ slot, call.status = .pending false slot ∧ slot ≠ .empty ∧
      (Status.ended o).receipt = slot := by
  unfold outcome? at ho
  split at ho
  · rename_i hstatus
    obtain rfl := Option.some.inj ho
    exact ⟨_, hstatus, nofun, rfl⟩
  · rename_i hstatus
    obtain rfl := Option.some.inj ho
    exact ⟨_, hstatus, nofun, rfl⟩
  · rename_i hstatus
    obtain rfl := Option.some.inj ho
    exact ⟨_, hstatus, nofun, rfl⟩
  · cases ho

theorem forlorn_of_outcome {o : Outcome} (htarget : call.target = .client i act manner)
    (hlost : call.status.Forlorn (.clientDropped (s.nameOf i) call.key))
    (ho : s.outcome? call = some o) :
    (Status.ended o).Forlorn (.clientDropped (s.nameOf i) call.key) := by
  unfold outcome? at ho
  split at ho
  · rename_i hstatus
    rw [hstatus] at hlost
    cases hlost
  · obtain rfl := Option.some.inj ho
    rw [lossOf, htarget]
    exact .failed
  · obtain rfl := Option.some.inj ho
    exact .void
  · cases ho

/-- A pending call may be marked, if what has arrived is still to be seen. -/
theorem Prospect.marked {status : Status} (prospect : s.Prospect labels es i c call)
    (h : s.step l = some (t, now)) (hnone : replyTo now c = none)
    (hpending : call.isPending = true) (hopen : call.Open → Call.Open { call with status })
    (htold : ∀ a, call.status.receipt = .full a → status.receipt = .full a)
    (hlost : call.status.Forlorn (.clientDropped (s.nameOf i) call.key) →
      status.Forlorn (.clientDropped (s.nameOf i) call.key)) :
    t.Prospect (labels ++ [l]) (es ++ now) i c { call with status } := by
  cases prospect with
  | gone hgone =>
    rw [Call.isPending, hgone] at hpending
    cases hpending
  | waits hbefore hsilent =>
    exact .waits (hopen hbefore) (by rw [replyTo_of_none hsilent, hnone])
  | told r hreply hbefore => exact .told r (replyTo_of_some hreply) (htold _ hbefore)
  | lost hsilent hkilled hstopped hbefore =>
    refine .lost (by rw [replyTo_of_none hsilent, hnone]) (List.mem_append_left _ hkilled)
      (absent_step h hstopped) ?_
    rw [nameOf_step h]
    exact hlost hbefore
  | refused hrefused =>
    obtain ⟨name, hended⟩ := hrefused
    rw [Call.isPending, hended] at hpending
    cases hpending

/-- What the caller does itself about its call. -/
theorem Prospect.own (prospect : s.Prospect labels es i c call) (h : s.step l = some (t, now))
    (htarget : call.target = .client i act manner) (hnone : replyTo now c = none)
    (touches : s.Touches i c call now call') :
    t.Prospect (labels ++ [l]) (es ++ now) i c call' := by
  have pending : ∀ {held slot}, call.status = .pending held slot → call.isPending = true := by
    intro held slot hstatus
    rw [Call.isPending, hstatus]
    rfl
  cases touches with
  | kept => exact prospect.same h (Or.inl hnone)
  | told job r hjob =>
    rw [← hjob, replyTo_answered] at hnone
    cases hnone
  | noted o ho =>
    obtain ⟨slot, hstatus, hheard, hreceipt⟩ := receipt_of_outcome ho
    refine prospect.marked h hnone (pending hstatus) ?_ ?_ fun hlost =>
      forlorn_of_outcome htarget hlost ho
    · rintro ⟨held, hopen⟩
      cases hstatus.symm.trans hopen
      exact absurd rfl hheard
    · intro a hfull
      rw [hstatus] at hfull
      exact hreceipt.trans hfull
  | taken a hfull =>
    refine prospect.marked h hnone (pending hfull) ?_ ?_ ?_
    · rintro ⟨held, hopen⟩
      cases hfull.symm.trans hopen
    · intro a' hreceipt
      rwa [hfull] at hreceipt
    · intro hlost
      rw [hfull] at hlost
      cases hlost
  | noticed hdropped =>
    refine prospect.marked h hnone (pending hdropped) ?_ ?_ fun _ => .noticed true
    · rintro ⟨held, hopen⟩
      cases hdropped.symm.trans hopen
    · intro a hreceipt
      rw [hdropped] at hreceipt
      cases hreceipt
  | awaited slot hheld =>
    refine prospect.marked h hnone (pending hheld) ?_ ?_ ?_
    · rintro ⟨held, hopen⟩
      cases hheld.symm.trans hopen
      exact ⟨false, rfl⟩
    · intro a hreceipt
      rwa [hheld] at hreceipt
    · intro hlost
      rw [hheld] at hlost
      cases hlost with
      | told => exact .told false
      | noticed => exact .noticed false
  | cancelled => exact .gone rfl

/-- The caller's own doings are no replies. -/
theorem replyTo_of_own (h : s.step l = some (t, now)) (hl : l.byCaller c = true) (d : Nat) :
    replyTo now d = none := by
  obtain rfl | rfl | rfl | rfl := Label.of_byCaller hl
  · obtain ⟨_, rfl⟩ := step_act h
    rfl
  · obtain ⟨_, rfl⟩ := step_act h
    rfl
  · obtain ⟨_, rfl⟩ := step_act h
    rfl
  · obtain ⟨e, hfire, rfl⟩ := step_move h
    obtain ⟨_, _, _, _, _, rfl⟩ := finish_cases hfire
    rfl

theorem Prospect.step (onRecord : s.OnRecord) (hcall : s.calls[c]? = some call)
    (htarget : call.target = .client i act manner) (prospect : s.Prospect labels es i c call)
    (h : s.step l = some (t, now)) (hcall' : t.calls[c]? = some call') :
    t.Prospect (labels ++ [l]) (es ++ now) i c call' := by
  cases hl : l.byCaller c with
  | true =>
    obtain ⟨later, hlater, touches⟩ := touches_of_own (i := i) hcall hl h
    obtain rfl := Option.some.inj (hcall'.symm.trans hlater)
    exact prospect.own h htarget (replyTo_of_own h hl c) touches
  | false =>
    obtain ⟨later, hlater, affects⟩ := affects_step onRecord hcall htarget hl h
    obtain rfl := Option.some.inj (hcall'.symm.trans hlater)
    exact prospect.others h affects

/-- An action that is in the queue of its client is not refused any more. -/
theorem refused_before (onRecord : s.OnRecord) (hcall : s.calls[c]? = some call)
    (htarget : call.target = .client i act manner) (hqueued : s.isBlocked c i = false)
    (h : s.step l = some (t, now)) (hcall' : t.calls[c]? = some call') (hrefused : call'.Refused) :
    call.Refused := by
  have unheard : ∀ news, (call.receive news).Refused → call.Refused := by
    rintro news ⟨name, hended⟩
    rcases Call.status_receive call news with ⟨held, _, hnews⟩ | ⟨hsame, _⟩
    · cases hnews.symm.trans hended
    · exact ⟨name, hsame.symm.trans hended⟩
  cases hl : l.byCaller c with
  | true =>
    obtain ⟨later, hlater, touches⟩ := touches_of_own (i := i) hcall hl h
    obtain rfl := Option.some.inj (hcall'.symm.trans hlater)
    cases touches with
    | kept => exact hrefused
    | told job r => exact unheard _ hrefused
    | noted o ho =>
      obtain ⟨name, hended⟩ := hrefused
      obtain rfl := Status.ended.inj hended
      unfold outcome? lossOf at ho
      rw [htarget] at ho
      split at ho <;> simp at ho
    | taken => obtain ⟨name, hended⟩ := hrefused; cases hended
    | noticed => obtain ⟨name, hended⟩ := hrefused; cases hended
    | awaited => obtain ⟨name, hended⟩ := hrefused; cases hended
    | cancelled => obtain ⟨name, hended⟩ := hrefused; cases hended
  | false =>
    obtain ⟨later, hlater, affects⟩ := affects_step onRecord hcall htarget hl h
    obtain rfl := Option.some.inj (hcall'.symm.trans hlater)
    cases affects with
    | kept => exact hrefused
    | answered r => exact unheard _ hrefused
    | spared => exact hrefused
    | dropped => exact unheard _ hrefused
    | refused name hblocked => cases hqueued.symm.trans hblocked

/-- A caller takes notice that no reply will come only by a look. -/
theorem spent_before (onRecord : s.OnRecord) (hcall : s.calls[c]? = some call)
    (htarget : call.target = .client i act manner) (hl : l ≠ .act (.take c))
    (h : s.step l = some (t, now)) (hcall' : t.calls[c]? = some call')
    (hspent : call'.status.receipt = .spent) : call.status.receipt = .spent := by
  have unheard : ∀ news, news ≠ .spent → (call.receive news).status.receipt = .spent →
      call.status.receipt = .spent := by
    intro news hnews hreceipt
    rcases Call.status_receive call news with ⟨held, _, hstatus⟩ | ⟨hsame, _⟩
    · rw [hstatus] at hreceipt
      exact absurd hreceipt hnews
    · rwa [hsame] at hreceipt
  cases hown : l.byCaller c with
  | true =>
    obtain rfl | rfl | rfl | rfl := Label.of_byCaller hown
    · exact absurd rfl hl
    · obtain ⟨_, slot, hcall₀, hheld, rfl⟩ := wait_held_cases (step_act h).1
      obtain rfl := Option.some.inj (hcall.symm.trans hcall₀)
      rw [calls_onCall, if_pos rfl, hcall] at hcall'
      obtain rfl := Option.some.inj hcall'
      rw [hheld]
      exact hspent
    · obtain rfl := Option.some.inj (step_act h).1
      rw [calls_cancel, if_pos rfl, hcall, Option.map_some] at hcall'
      split at hcall'
      · obtain rfl := Option.some.inj hcall'
        cases hspent
      · obtain rfl := Option.some.inj hcall'
        exact hspent
    · obtain ⟨e, hfire, _⟩ := step_move h
      obtain ⟨_, o, hcall₀, ho, rfl, _⟩ := finish_cases hfire
      obtain rfl := Option.some.inj (hcall.symm.trans hcall₀)
      rw [calls_onCall, if_pos rfl, hcall] at hcall'
      obtain rfl := Option.some.inj hcall'
      obtain ⟨slot, hstatus, _, hreceipt⟩ := receipt_of_outcome ho
      rw [hstatus]
      exact hreceipt.symm.trans hspent
  | false =>
    obtain ⟨later, hlater, affects⟩ := affects_step onRecord hcall htarget hown h
    obtain rfl := Option.some.inj (hcall'.symm.trans hlater)
    cases affects with
    | kept => exact hspent
    | answered r => exact unheard (.full (.client r)) nofun hspent
    | spared => exact hspent
    | dropped => exact unheard .dropped nofun hspent
    | refused name =>
      rcases Call.refuse_cases call (.failure (.clientUnavailable name)) with hended | hsame
      · rw [hended] at hspent
        cases hspent
      · rwa [hsame] at hspent

/-! ## Runs -/

/-- A client answers the jobs it has. -/
theorem job_of_answered {j : Nat} {job : Job} {r : ClientReply} (h : s.step l = some (t, now))
    (hmem : .answered j job r ∈ now) : ∃ m, s.members[j]? = some m ∧ job ∈ m.jobs := by
  cases l with
  | act a =>
    obtain ⟨_, rfl⟩ := step_act h
    cases hmem
  | move mv =>
    obtain ⟨e, hfire, rfl⟩ := step_move h
    obtain rfl := List.mem_singleton.mp hmem
    cases mv with
    | serve => obtain ⟨_, _, ⟨_, _, _, he⟩ | ⟨_, _, _, he⟩⟩ := serve_cases hfire <;> cases he
    | begin i =>
      obtain ⟨m, _, _, _, hm, _, _, hentries, hdone⟩ := begin_cases hfire
      have hfirst := Member.mem_jobs.mpr (Or.inr (hentries ▸ List.mem_cons_self))
      obtain ⟨_, _, _, he⟩ | ⟨_, _, _, he⟩ | ⟨_, _, _, _, _, _, he⟩ := hdone
      · cases he
        exact ⟨m, hm, hfirst⟩
      · cases he
      · cases he
        exact ⟨m, hm, hfirst⟩
    | resume i =>
      obtain ⟨m, _, slot, _, _, _, hm, hwork, _, _, _, he⟩ := resume_cases hfire
      cases he
      exact ⟨m, hm, Member.mem_jobs.mpr (Or.inl ⟨slot, hwork⟩)⟩
    | leave i => obtain ⟨_, _, _, _, _, _, _, he⟩ := leave_cases hfire; cases he
    | retire => obtain ⟨_, _, _, _, he⟩ := retire_cases hfire; cases he
    | finish d => obtain ⟨_, _, _, _, _, he⟩ := finish_cases hfire; cases he

/-- Nobody replies to a call that has not been made. -/
theorem replyTo_of_new (h : (start setup).run labels = some (s, es)) (hc : s.calls.length ≤ c) :
    replyTo es c = none := by
  refine history_induction (P := fun _ s es => ∀ c, s.calls.length ≤ c → replyTo es c = none)
    (fun _ _ => rfl) ?_ h c hc
  intro past u before l t now hpast ih hstep c hc
  have hlength := length_calls_step hstep
  rw [replyTo_of_none (ih c (by omega)), replyTo, List.findSome?_eq_none_iff]
  intro e he
  cases e with
  | answered j job r =>
    obtain ⟨m, hm, hmem⟩ := job_of_answered hstep he
    obtain ⟨call, _, hcall, _⟩ :=
      (onRecord_run (onRecord_start setup) hpast).placed j m job hm hmem
    have hmade := (List.getElem?_eq_some_iff.mp hcall).1
    exact if_neg (by omega)
  | _ => rfl

/-- A client that has stopped is called in vain. -/
theorem prospect_of_call (h : s.call (.client i act manner) k = some t)
    (hcall : t.calls[s.calls.length]? = some call) (hnone : replyTo es s.calls.length = none) :
    t.Prospect labels es i s.calls.length call := by
  obtain ⟨m, _, _, ⟨_, rfl⟩ | ⟨_, rfl⟩⟩ := call_client_cases h
  · obtain rfl : _ = call := by simpa [enter] using hcall
    exact .waits ⟨_, rfl⟩ hnone
  · obtain rfl : _ = call := by simpa [enter] using hcall
    exact .refused ⟨m.name, rfl⟩

theorem prospect_run (h : (start setup).run labels = some (s, es)) (hcall : s.calls[c]? = some call)
    (htarget : call.target = .client i act manner) : s.Prospect labels es i c call := by
  refine history_induction (P := fun labels s es => ∀ c call act manner,
    s.calls[c]? = some call → call.target = .client i act manner →
      s.Prospect labels es i c call) ?_ ?_ h c call act manner hcall htarget
  · intro c call act manner hcall
    cases hcall
  · intro past u before l t now hpast ih hstep c call' act manner hcall' htarget
    have onRecord := onRecord_run (onRecord_start setup) hpast
    obtain ⟨call, hcall, hagrees⟩ | ⟨rfl, rfl⟩ := call_before hstep hcall'
    · have htarget' : call.target = .client i act manner := hagrees.1.symm.trans htarget
      exact (ih c call act manner hcall htarget').step onRecord hcall htarget' hstep hcall'
    · obtain ⟨hact, rfl⟩ := step_act hstep
      rw [htarget] at hact
      rw [List.append_nil]
      exact prospect_of_call hact hcall' (replyTo_of_new hpast (Nat.le_refl _))

/-- A caller that is told, or has taken notice, that no reply will come is right. -/
theorem Prospect.of_lost {held : Bool} (prospect : s.Prospect labels es i c call)
    (hlost : call.status = .pending held .dropped ∨ call.status = .pending held .spent) :
    replyTo es c = none ∧ .act (.killClient i) ∈ labels ∧ s.isPresent (.client i) = false := by
  cases prospect with
  | lost hnone hkilled hstopped => exact ⟨hnone, hkilled, hstopped⟩
  | gone hgone => rcases hlost with hlost | hlost <;> cases hlost.symm.trans hgone
  | waits hopen =>
    obtain ⟨_, hopen⟩ := hopen
    rcases hlost with hlost | hlost <;> cases hlost.symm.trans hopen
  | told r _ htold => rcases hlost with hlost | hlost <;> rw [hlost] at htold <;> cases htold
  | refused hrefused =>
    obtain ⟨_, hended⟩ := hrefused
    rcases hlost with hlost | hlost <;> cases hlost.symm.trans hended

/-- A client that has stopped replies to nobody. -/
theorem silent_run (onRecord : s.OnRecord) (hcall : s.calls[c]? = some call)
    (htarget : call.target = .client i act manner) (hstopped : s.isPresent (.client i) = false)
    (h : s.run labels = some (t, es)) : replyTo es c = none := by
  induction labels generalizing s es call with
  | nil =>
    obtain ⟨rfl, rfl⟩ := Prod.mk.inj (Option.some.inj h)
    rfl
  | cons l rest ih =>
    obtain ⟨u, now, later, hstep, hrest, rfl⟩ := run_cons h
    have hnow : replyTo now c = none := by
      cases hl : l.byCaller c with
      | true => exact replyTo_of_own hstep hl c
      | false =>
        obtain ⟨_, _, affects⟩ := affects_step onRecord hcall htarget hl hstep
        cases affects with
        | kept hnone => exact hnone
        | answered r hjob hpresent => cases hstopped.symm.trans hpresent
        | spared => rfl
        | dropped => rfl
        | refused => rfl
    obtain ⟨call', hcall', hagrees⟩ := call_after hstep hcall
    rw [replyTo_of_none hnow]
    exact ih (onRecord_step onRecord hstep) hcall' (hagrees.1.trans htarget)
      (absent_step hstep hstopped) hrest

end Cluster

end Custody
