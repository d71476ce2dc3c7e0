import Custody.Proofs.Away.Lockstep
import Custody.Proofs.Held.Prospects

/-!
# A call that is void

A caller that looks at its call after its client was killed takes notice that no reply will come, and
the error that a wait would have given it is lost. Nothing else is: what can be done after such a
look can be done without it, and the two clusters differ in the status of that one call.
-/

namespace Custody

/-- A status without the news that no reply will come. -/
def Status.voided : Status → Status
  | .pending held _ => .pending held .spent
  | .ended _ => .ended .void
  | status => status

/-- No reply makes a difference any more: the caller has gone away or has ended, or it has heard that
there will be none. -/
inductive Status.Hopeless : Status → Prop where
  | gone : Hopeless .cancelled
  | ended (o : Outcome) : Hopeless (.ended o)
  | told (held : Bool) : Hopeless (.pending held .dropped)
  | noticed (held : Bool) : Hopeless (.pending held .spent)

/-- What is done but for the looks at call `c`. -/
def unlooked (c : Nat) (labels : List Label) : List Label :=
  labels.filter fun l => l != .act (.take c)

namespace Cluster

/-- The caller of `c` has looked at its call too late. -/
def voided (s : Cluster) (c : Nat) : Cluster :=
  s.onCall c fun call => { call with status := call.status.voided }

/-- Call `c` dispatched an action to client `i`, and the action has got into the queue. -/
structure Receipt (s : Cluster) (i c : Nat) : Prop where
  onRecord : s.OnRecord
  dispatched : ∃ call act, s.calls[c]? = some call ∧ call.target = .client i act (.dispatched true)
  queued : s.isBlocked c i = false

variable {s t : Cluster} {l : Label} {labels : List Label} {es now : List Event} {i c : Nat}
  {call call' : Call} {status : Status} {slot : Slot Answer} {held : Bool}

theorem unlooked_cons_look (c : Nat) (rest : List Label) :
    unlooked c (.act (.take c) :: rest) = unlooked c rest := by
  simp [unlooked]

theorem unlooked_cons (hl : l ≠ .act (.take c)) (rest : List Label) :
    unlooked c (l :: rest) = l :: unlooked c rest :=
  List.filter_cons_of_pos (by simpa using hl)

theorem Receipt.step (receipt : s.Receipt i c) (h : s.step l = some (t, now)) : t.Receipt i c where
  onRecord := onRecord_step receipt.onRecord h
  dispatched := by
    obtain ⟨call, act, hcall, htarget⟩ := receipt.dispatched
    obtain ⟨call', hcall', hagrees⟩ := call_after h hcall
    exact ⟨call', act, hcall', hagrees.1.trans htarget⟩
  queued := by
    obtain ⟨call, _, hcall, _⟩ := receipt.dispatched
    have hmade := (List.getElem?_eq_some_iff.mp hcall).1
    by_contra hblocked
    cases receipt.queued.symm.trans (isBlocked_before h hmade (by simpa using hblocked))

theorem Receipt.target (receipt : s.Receipt i c) (hcall : s.calls[c]? = some call) :
    ∃ act, call.target = .client i act (.dispatched true) := by
  obtain ⟨call', act, hcall', htarget⟩ := receipt.dispatched
  obtain rfl := Option.some.inj (hcall.symm.trans hcall')
  exact ⟨act, htarget⟩

theorem Receipt.directed (receipt : s.Receipt i c) : s.Directed c where
  onRecord := receipt.onRecord
  receipt := by
    obtain ⟨call, act, hcall, htarget⟩ := receipt.dispatched
    exact ⟨call, i, act, _, hcall, htarget, fun _ _ => by rw [htarget]; rfl⟩

theorem Receipt.unattached (receipt : s.Receipt i c) (hcall : s.calls[c]? = some call) (j : Nat) :
    call.attachedTo j = false := by
  obtain ⟨act, htarget⟩ := receipt.target hcall
  rw [Call.attachedTo, htarget]

/-! ## What a late look leaves -/

theorem calls_voided (s : Cluster) (c d : Nat) : (s.voided c).calls[d]? =
    if c = d then s.calls[d]?.map fun call => { call with status := call.status.voided }
    else s.calls[d]? := calls_onCall s d c _

theorem voided_abandon (s : Cluster) (c : Nat) : (s.voided c).abandon c = s.abandon c :=
  abandon_onCall s c fun call => call.status.voided

theorem voided_marked (s : Cluster) (c : Nat) (status : Status) :
    (s.onCall c fun call => { call with status }).voided c =
      (s.voided c).onCall c fun call => { call with status := status.voided } := by
  refine eq_of_parts rfl rfl (List.ext_getElem? fun n => ?_)
  rw [calls_voided, calls_onCall, calls_onCall, calls_voided]
  split
  · cases s.calls[n]? <;> rfl
  · rfl

/-- Clusters that differ in call `c` only are told apart by it. -/
theorem eq_voided (hsame : t.abandon c = s.abandon c) (hcall : s.calls[c]? = some call)
    (hcall' : t.calls[c]? = some { call with status := call.status.voided }) : t = s.voided c := by
  have hkeeper : t.keeper = s.keeper := by simpa using congrArg keeper hsame
  have hmembers : t.members = s.members := by simpa using congrArg members hsame
  refine eq_of_parts hkeeper hmembers (List.ext_getElem? fun n => ?_)
  rw [calls_voided]
  split
  · rename_i hn
    subst hn
    rw [hcall', hcall]
    rfl
  · rename_i hn
    have hother := congrArg (fun u => u.calls[n]?) hsame
    simpa only [calls_abandon_of_ne (Ne.symm hn)] using hother

theorem closed_of_hopeless (h : call.status.Hopeless) : ¬ call.Open := by
  rintro ⟨held, hopen⟩
  rw [hopen] at h
  cases h

theorem closed_voided (call : Call) : ¬ Call.Open { call with status := call.status.voided } := by
  rintro ⟨held, hopen⟩
  cases hstatus : call.status <;> simp [hstatus, Status.voided] at hopen

/-- What is still pending after a late look. -/
theorem pending_of_voided (h : status.Hopeless) (hvoided : status.voided = .pending held slot) :
    slot = .spent ∧ (status = .pending held .dropped ∨ status = .pending held .spent) := by
  cases h with
  | gone => cases hvoided
  | ended => cases hvoided
  | told =>
    cases hvoided
    exact ⟨rfl, Or.inl rfl⟩
  | noticed =>
    cases hvoided
    exact ⟨rfl, Or.inr rfl⟩

theorem isPending_voided (call : Call) :
    Call.isPending { call with status := call.status.voided } = call.isPending := by
  cases hstatus : call.status <;> simp [Call.isPending, hstatus, Status.voided, Status.isPending]

theorem void_of_spent {o : Outcome} (h : (Status.ended o).receipt = .spent) : o = .void := by
  cases o with
  | void => rfl
  | answered => cases h
  | failed => cases h

theorem cancel_of_done (hcall : s.calls[c]? = some call) (hdone : call.isPending = false) :
    s.cancel c = s := by
  rw [cancel, hcall]
  simp [hdone]

/-! ## One step after the look and without it -/

/-- The step that leads to `t` after the look can be made without it. Only the caller sees the
difference, and there is still nothing it could hear. -/
def Retraces (s : Cluster) (c : Nat) (l : Label) (t : Cluster) (es : List Event) : Prop :=
  ∃ u es', s.step l = some (u, es') ∧ t = u.voided c ∧ othersSee c es = othersSee c es' ∧
    ∃ call, u.calls[c]? = some call ∧ call.status.Hopeless

theorem calls_marked (hcall : s.calls[c]? = some call) (status : Status) :
    (s.onCall c fun call => { call with status }).calls[c]? = some { call with status } := by
  rw [calls_onCall, if_pos rfl, hcall]
  rfl

theorem voided_call (hcall : s.calls[c]? = some call) :
    (s.voided c).calls[c]? = some { call with status := call.status.voided } := by
  rw [calls_voided, if_pos rfl, hcall]
  rfl

theorem retraces_of_other (receipt : s.Receipt i c) (after : (s.voided c).Receipt i c)
    (hcall : s.calls[c]? = some call) (hopeless : call.status.Hopeless)
    (hl : l.byCaller c = false) (h : (s.voided c).step l = some (t, es)) :
    s.Retraces c l t es := by
  obtain ⟨act, htarget⟩ := receipt.target hcall
  have hgone := step_of_stays after.directed hl h
  rw [voided_abandon, step_abandon receipt.directed hl fun j _ call hcall =>
    receipt.unattached hcall j] at hgone
  obtain ⟨⟨u, now⟩, hstep, hlast⟩ := Option.map_eq_some_iff.mp hgone
  obtain ⟨hsame, rfl⟩ := Prod.mk.inj hlast
  obtain ⟨call₁, hcall₁, affects₁⟩ := affects_step receipt.onRecord hcall htarget hl hstep
  obtain ⟨call₂, hcall₂, affects₂⟩ := affects_step after.onRecord (voided_call hcall) htarget hl h
  obtain rfl := affects₁.of_closed (closed_of_hopeless hopeless) receipt.queued
  obtain rfl := affects₂.of_closed (closed_voided _) after.queued
  exact ⟨u, now, hstep, eq_voided hsame.symm hcall₁ hcall₂, rfl, _, hcall₁, hopeless⟩

theorem retraces_wait (hcall : s.calls[c]? = some call) (hopeless : call.status.Hopeless)
    (h : (s.voided c).wait c = some t) : s.Retraces c (.act (.wait c)) t [] := by
  obtain ⟨call', slot, hcall', hheld, rfl⟩ := wait_held_cases h
  obtain rfl := Option.some.inj ((voided_call hcall).symm.trans hcall')
  obtain ⟨rfl, hbefore⟩ := pending_of_voided hopeless hheld
  obtain ⟨slot, hstatus, hlast⟩ : ∃ slot, call.status = .pending true slot ∧
      Status.Hopeless (.pending false slot) := by
    rcases hbefore with hstatus | hstatus
    · exact ⟨_, hstatus, .told false⟩
    · exact ⟨_, hstatus, .noticed false⟩
  refine ⟨s.onCall c fun call => { call with status := .pending false slot }, [], ?_,
    (voided_marked s c (.pending false slot)).symm, rfl, _, calls_marked hcall _, hlast⟩
  rw [step, perform, wait, hcall]
  simp [hstatus]

theorem retraces_cancel (receipt : s.Receipt i c) (after : (s.voided c).Receipt i c)
    (hcall : s.calls[c]? = some call) (hopeless : call.status.Hopeless) :
    s.Retraces c (.act (.cancel c)) ((s.voided c).cancel c) [] := by
  obtain ⟨act, htarget⟩ := receipt.target hcall
  cases hpending : call.isPending with
  | true =>
    have hpending' := (isPending_voided call).trans hpending
    have hmarked : (s.abandon c).voided c = (s.voided c).abandon c := voided_marked s c .cancelled
    rw [cancel_eq_abandon (voided_call hcall) htarget hpending' after.queued, ← hmarked]
    refine ⟨s.abandon c, [], ?_, rfl, rfl, _, calls_marked hcall _, .gone⟩
    rw [step, perform, cancel_eq_abandon hcall htarget hpending receipt.queued]
    rfl
  | false =>
    rw [cancel_of_done (voided_call hcall) ((isPending_voided call).trans hpending)]
    refine ⟨s, [], ?_, rfl, rfl, call, hcall, hopeless⟩
    rw [step, perform, cancel_of_done hcall hpending]
    rfl

/-- Here the two part: who has looked too late comes to nothing. -/
theorem retraces_finish {e : Event} (hcall : s.calls[c]? = some call)
    (hopeless : call.status.Hopeless) (h : (s.voided c).finish c = some (t, e)) :
    s.Retraces c (.move (.finish c)) t [e] := by
  obtain ⟨call', o, hcall', ho, rfl, rfl⟩ := finish_cases h
  obtain rfl := Option.some.inj ((voided_call hcall).symm.trans hcall')
  obtain ⟨slot, hheld, _, hreceipt⟩ := receipt_of_outcome ho
  obtain ⟨rfl, hbefore⟩ := pending_of_voided hopeless hheld
  obtain ⟨o', ho'⟩ : ∃ o', s.outcome? call = some o' := by
    rcases hbefore with hstatus | hstatus
    · exact ⟨_, by rw [outcome?, hstatus]⟩
    · exact ⟨_, by rw [outcome?, hstatus]⟩
  refine ⟨s.onCall c fun call => { call with status := .ended o' }, [.ended c o'],
    step_of_fire ?_, ?_, ?_, _, calls_marked hcall _, .ended o'⟩
  · rw [fire, finish, hcall]
    simp [ho']
  · rw [voided_marked, Status.voided, void_of_spent hreceipt]
  · simp [othersSee, Event.toCaller]

theorem retraces_step (receipt : s.Receipt i c) (after : (s.voided c).Receipt i c)
    (hcall : s.calls[c]? = some call) (hopeless : call.status.Hopeless)
    (hlook : l ≠ .act (.take c)) (h : (s.voided c).step l = some (t, es)) :
    s.Retraces c l t es := by
  cases hl : l.byCaller c with
  | false => exact retraces_of_other receipt after hcall hopeless hl h
  | true =>
    obtain rfl | rfl | rfl | rfl := Label.of_byCaller hl
    · exact absurd rfl hlook
    · obtain ⟨hact, rfl⟩ := step_act h
      exact retraces_wait hcall hopeless hact
    · obtain ⟨hact, rfl⟩ := step_act h
      obtain rfl := Option.some.inj hact
      exact retraces_cancel receipt after hcall hopeless
    · obtain ⟨e, hfire, rfl⟩ := step_move h
      exact retraces_finish hcall hopeless hfire

/-- Another look finds nothing new. -/
theorem take_voided (hcall : s.calls[c]? = some call) (hopeless : call.status.Hopeless)
    (h : (s.voided c).take c = some t) : t = s.voided c := by
  obtain ⟨call', hcall', ⟨a, hheld, _⟩ | ⟨hheld, _⟩ | hsame⟩ := take_held_cases h
  · obtain rfl := Option.some.inj ((voided_call hcall).symm.trans hcall')
    cases (pending_of_voided hopeless hheld).1
  · obtain rfl := Option.some.inj ((voided_call hcall).symm.trans hcall')
    cases (pending_of_voided hopeless hheld).1
  · exact hsame

/-! ## Runs -/

/-- All that follows on a look that was too late can be done without that look and all later ones.
The caller alone ends differently. -/
theorem voided_run (receipt : s.Receipt i c) (after : (s.voided c).Receipt i c)
    (hcall : s.calls[c]? = some call) (hopeless : call.status.Hopeless)
    (h : (s.voided c).run labels = some (t, es)) :
    ∃ u es', s.run (unlooked c labels) = some (u, es') ∧ t = u.voided c ∧
      othersSee c es = othersSee c es' := by
  induction labels generalizing s call es with
  | nil =>
    obtain ⟨rfl, rfl⟩ := Prod.mk.inj (Option.some.inj h)
    exact ⟨s, [], rfl, rfl, rfl⟩
  | cons l rest ih =>
    obtain ⟨v, now, later, hstep, hrest, rfl⟩ := run_cons h
    by_cases hlook : l = .act (.take c)
    · subst hlook
      obtain ⟨hact, rfl⟩ := step_act hstep
      obtain rfl := take_voided hcall hopeless hact
      rw [unlooked_cons_look]
      exact ih receipt after hcall hopeless hrest
    · obtain ⟨w, now', hstep', rfl, hsee, call', hcall', hopeless'⟩ :=
        retraces_step receipt after hcall hopeless hlook hstep
      obtain ⟨u, later', hrest', hlast, hsee'⟩ :=
        ih (receipt.step hstep') (after.step hstep) hcall' hopeless' hrest
      refine ⟨u, now' ++ later', ?_, hlast, ?_⟩
      · rw [unlooked_cons hlook, run, hstep']
        simp [hrest']
      · rw [othersSee_append, othersSee_append, hsee, hsee']

end Cluster

end Custody
