import Custody.Proofs.Away.Abandon
import Custody.Proofs.Stop.Lifetimes

/-!
# One step with the caller and without

What anybody else can do while the caller of an action is there can be done without it, and leads to
the same. The other way round there is one condition: a caller that waits keeps its handle on the
client until it has taken note of its reply.
-/

namespace Custody

/-- The caller of `c` does something about it. -/
def Label.byCaller (c : Nat) : Label → Bool
  | .act (.take d) => d == c
  | .act (.wait d) => d == c
  | .act (.cancel d) => d == c
  | .move (.finish d) => d == c
  | _ => false

theorem Label.of_byCaller {l : Label} {c : Nat} (h : l.byCaller c = true) :
    l = .act (.take c) ∨ l = .act (.wait c) ∨ l = .act (.cancel c) ∨ l = .move (.finish c) := by
  unfold byCaller at h
  split at h <;> simp_all

/-- The caller of `c` takes note of its outcome. -/
def Event.toCaller (c : Nat) : Event → Bool
  | .ended d _ => d == c
  | _ => false

/-- What happens but for the report to the caller of `c`. -/
def othersSee (c : Nat) (es : List Event) : List Event := es.filter fun e => !e.toCaller c

namespace Cluster

/-- Call `c` is for a client, and whoever holds it has dispatched it. -/
structure Directed (s : Cluster) (c : Nat) : Prop where
  onRecord : s.OnRecord
  receipt : ∃ call i act manner, s.calls[c]? = some call ∧ call.target = .client i act manner ∧
    ∀ slot, call.status = .pending true slot → call.target.isHeld = true

variable {setup : Setup} {s t u : Cluster} {l : Label} {labels : List Label} {e : Event}
  {es now : List Event} {c i : Nat} {call : Call} {act : Action} {manner : Manner}

theorem directed_run (h : (start setup).run labels = some (s, es))
    (hcall : s.calls[c]? = some call) (htarget : call.target = .client i act manner) :
    s.Directed c where
  onRecord := onRecord_run (onRecord_start setup) h
  receipt := ⟨call, i, act, manner, hcall, htarget, fun _ hheld => isHeld_of_held h hcall hheld⟩

theorem Directed.step (directed : s.Directed c) (h : s.step l = some (t, now)) :
    t.Directed c where
  onRecord := onRecord_step directed.onRecord h
  receipt := by
    obtain ⟨call, i, act, manner, hcall, htarget, hreceipt⟩ := directed.receipt
    obtain ⟨target, k, status, _, hcalls, _⟩ | ⟨_, hages⟩ := ages_step h
    · refine ⟨call, i, act, manner, ?_, htarget, hreceipt⟩
      rw [hcalls, List.getElem?_append_left (List.getElem?_eq_some_iff.mp hcall).1, hcall]
    · obtain ⟨call', hcall', hages⟩ := after_of_forall₂ hages hcall
      refine ⟨call', i, act, manner, hcall', hages.target.trans htarget, fun slot hheld => ?_⟩
      obtain ⟨slot', hbefore⟩ := hages.held slot hheld
      rw [hages.target]
      exact hreceipt slot' hbefore

theorem Directed.lt (directed : s.Directed c) : c < s.calls.length := by
  obtain ⟨call, _, _, _, hcall, _⟩ := directed.receipt
  exact (List.getElem?_eq_some_iff.mp hcall).1

/-- The store never hears of the caller of a client. -/
theorem Directed.unknown (directed : s.Directed c) (k : Key) :
    s.keeper.store.waiter k ≠ some (.caller c) := by
  intro hwaits
  obtain ⟨call, i, act, manner, hcall, htarget, _⟩ := directed.receipt
  obtain ⟨call', hcall', hstore⟩ := directed.onRecord.callers c (Or.inr ⟨k, hwaits⟩)
  obtain rfl := Option.some.inj (hcall.symm.trans hcall')
  exact hstore i act manner htarget

/-! ## One step -/

theorem step_of_fire {mv : Move} (h : s.fire mv = some (t, e)) :
    s.step (.move mv) = some (t, [e]) := by
  rw [Cluster.step, h]
  rfl

/-- Taking away the caller of `c` undoes whatever it has done about its call. -/
theorem abandon_onCall (s : Cluster) (c : Nat) (status : Call → Status) :
    (s.onCall c fun call => { call with status := status call }).abandon c = s.abandon c := by
  refine eq_of_parts rfl rfl (List.ext_getElem? fun n => ?_)
  rw [calls_abandon, calls_abandon, calls_onCall]
  split
  · cases s.calls[n]? <;> rfl
  · rfl

theorem fire_abandon {mv : Move} (directed : s.Directed c) (hmv : mv ≠ .finish c)
    (hunattached : ∀ i, mv = .leave i → ∀ call, s.calls[c]? = some call →
      call.attachedTo i = false) :
    (s.abandon c).fire mv = (s.fire mv).map (Prod.map (·.abandon c) id) := by
  cases mv with
  | serve => exact serve_abandon directed.unknown
  | begin i => exact begin_abandon s c i
  | resume i => exact resume_abandon s c i
  | leave i => exact leave_abandon (hunattached i rfl)
  | retire =>
    obtain ⟨call, i, act, manner, hcall, htarget, _⟩ := directed.receipt
    exact retire_abandon hcall htarget
  | finish d => exact finish_abandon fun hd => hmv (hd ▸ rfl)

theorem perform_abandon {a : Act} (hc : c < s.calls.length)
    (ha : Label.byCaller c (.act a) = false) :
    (s.abandon c).perform a = (s.perform a).map (·.abandon c) := by
  cases a with
  | call target k => exact call_abandon hc target k
  | take d => exact take_abandon (by simpa [Label.byCaller] using ha)
  | wait d => exact wait_abandon (by simpa [Label.byCaller] using ha)
  | cancel d =>
    exact congrArg some (cancel_abandon_of_ne (by simpa [Label.byCaller] using ha))
  | closeClient i => exact closeClient_abandon s c i
  | closeStore => rfl
  | killClient i => exact killClient_abandon s c i
  | killStore => exact congrArg some (killStore_abandon s c)

theorem step_abandon (directed : s.Directed c) (hl : l.byCaller c = false)
    (hunattached : ∀ i, l = .move (.leave i) → ∀ call, s.calls[c]? = some call →
      call.attachedTo i = false) :
    (s.abandon c).step l = (s.step l).map (Prod.map (·.abandon c) id) := by
  cases l with
  | act a =>
    rw [Cluster.step, Cluster.step, perform_abandon directed.lt hl]
    cases s.perform a <;> rfl
  | move mv =>
    have hmv : mv ≠ .finish c := by
      rintro rfl
      simp [Label.byCaller] at hl
    rw [Cluster.step, Cluster.step,
      fire_abandon directed hmv fun i hi => hunattached i (congrArg Label.move hi)]
    cases s.fire mv <;> rfl

/-- What can be done while the caller is there can be done without it. -/
theorem step_of_stays (directed : s.Directed c) (hl : l.byCaller c = false)
    (h : s.step l = some (t, es)) : (s.abandon c).step l = some (t.abandon c, es) := by
  rw [step_abandon directed hl, h]
  · rfl
  · rintro i rfl call hcall
    obtain ⟨e, hleave, _⟩ := step_move h
    obtain ⟨m, _, _, _, _, hreaches, _⟩ := leave_cases hleave
    rw [reaches, Bool.or_eq_false_iff, List.any_eq_false] at hreaches
    simpa using hreaches.2 call (List.mem_of_getElem? hcall)

/-- A caller that keeps its handle on a client and has nothing to take note of has heard nothing. -/
theorem Directed.open_of_attached (directed : s.Directed c) (hnoted : s.finish c = none)
    (hcall : s.calls[c]? = some call) (hattached : call.attachedTo i = true) : call.Open := by
  obtain ⟨call', _, _, _, hcall', _, hreceipt⟩ := directed.receipt
  obtain rfl := Option.some.inj (hcall.symm.trans hcall')
  obtain ⟨target, key, status⟩ := call
  unfold Call.attachedTo at hattached
  split at hattached
  · rename_i j act htarget
    obtain rfl : target = .client j act .attached := htarget
    cases status with
    | pending held slot =>
      cases held with
      | true => cases hreceipt slot rfl
      | false =>
        cases slot with
        | empty => exact ⟨false, rfl⟩
        | _ => simp [finish, hcall, outcome?] at hnoted
    | _ => simp [Call.isPending, Status.isPending] at hattached
  · cases hattached

/-- A client that somebody waits for has something left to do. -/
theorem Directed.leave_of_attached (directed : s.Directed c) (hnoted : s.finish c = none)
    (hcall : s.calls[c]? = some call) (hattached : call.attachedTo i = true) :
    (s.abandon c).leave i = none := by
  have hopen := directed.open_of_attached hnoted hcall hattached
  unfold Call.attachedTo at hattached
  split at hattached
  · rename_i j act htarget
    obtain rfl : j = i := by simpa using (Bool.and_eq_true_iff.mp hattached).2
    obtain ⟨m, hm, _, hjob⟩ := directed.onRecord.carried c call j act _ hcall htarget hopen
    cases hleave : (s.abandon c).leave j with
    | none => rfl
    | some p =>
      obtain ⟨m', hm', _, hidle, hentries, _⟩ := leave_cases (t := p.1) (e := p.2) hleave
      obtain rfl := Option.some.inj (hm.symm.trans hm')
      rcases Member.mem_jobs.mp hjob with ⟨slot, hwork⟩ | hinbox
      · rw [hidle] at hwork
        cases hwork
      · rw [hentries] at hinbox
        cases hinbox
  · cases hattached

/-- What can be done without the caller can be done while it is there, once it has taken note of
what it has heard. -/
theorem step_of_gone (directed : s.Directed c) (hnoted : s.finish c = none)
    (hl : l.byCaller c = false) (h : (s.abandon c).step l = some (u, es)) :
    ∃ t, s.step l = some (t, es) ∧ u = t.abandon c := by
  have hsame : (s.abandon c).step l = (s.step l).map (Prod.map (·.abandon c) id) := by
    refine step_abandon directed hl ?_
    rintro i rfl call hcall
    by_contra hattached
    have hstuck := directed.leave_of_attached hnoted hcall (by simpa using hattached)
    obtain ⟨e, hleave, _⟩ := step_move h
    cases hstuck.symm.trans hleave
  rw [hsame] at h
  obtain ⟨⟨t, now⟩, hstep, hlast⟩ := Option.map_eq_some_iff.mp h
  obtain ⟨rfl, rfl⟩ := Prod.mk.inj hlast
  exact ⟨t, hstep, rfl⟩

/-- Only a caller that takes note is told. -/
theorem toCaller_of_fire {mv : Move} (h : s.fire mv = some (t, e)) (hmv : mv ≠ .finish c) :
    e.toCaller c = false := by
  cases mv with
  | serve =>
    obtain ⟨_, _, ⟨_, _, _, rfl⟩ | ⟨_, _, _, rfl⟩⟩ := serve_cases h
    · rfl
    · rfl
  | begin i =>
    obtain ⟨_, _, _, _, _, _, _, _, ⟨_, _, _, rfl⟩ | ⟨_, _, _, rfl⟩ | ⟨_, _, _, _, _, _, rfl⟩⟩ :=
      begin_cases h
    · rfl
    · rfl
    · rfl
  | resume i =>
    obtain ⟨_, _, _, _, _, _, _, _, _, _, _, rfl⟩ := resume_cases h
    rfl
  | leave i =>
    obtain ⟨_, _, _, _, _, _, _, rfl⟩ := leave_cases h
    rfl
  | retire =>
    obtain ⟨_, _, _, _, rfl⟩ := retire_cases h
    rfl
  | finish d =>
    obtain ⟨_, _, _, _, _, rfl⟩ := finish_cases h
    have hd : d ≠ c := fun hd => hmv (hd ▸ rfl)
    simpa [Event.toCaller] using hd

theorem othersSee_of_step (h : s.step l = some (t, es)) (hl : l.byCaller c = false) :
    othersSee c es = es := by
  rw [othersSee, List.filter_eq_self]
  intro e he
  cases l with
  | act a =>
    obtain ⟨_, rfl⟩ := step_act h
    cases he
  | move mv =>
    obtain ⟨e', hfire, rfl⟩ := step_move h
    obtain rfl := List.mem_singleton.mp he
    rw [toCaller_of_fire hfire]
    · rfl
    · rintro rfl
      simp [Label.byCaller] at hl

/-- What the caller does about its call nobody else sees. -/
theorem step_of_caller (h : s.step l = some (t, es)) (hl : l.byCaller c = true)
    (hstays : l ≠ .act (.cancel c)) : t.abandon c = s.abandon c ∧ othersSee c es = [] := by
  obtain rfl | rfl | rfl | rfl := Label.of_byCaller hl
  · obtain ⟨hact, rfl⟩ := step_act h
    obtain ⟨_, _, ⟨_, _, rfl⟩ | ⟨_, rfl⟩ | rfl⟩ := take_held_cases hact
    · exact ⟨abandon_onCall s c _, rfl⟩
    · exact ⟨abandon_onCall s c _, rfl⟩
    · exact ⟨rfl, rfl⟩
  · obtain ⟨hact, rfl⟩ := step_act h
    obtain ⟨_, _, _, _, rfl⟩ := wait_held_cases hact
    exact ⟨abandon_onCall s c _, rfl⟩
  · exact absurd rfl hstays
  · obtain ⟨e, hfire, rfl⟩ := step_move h
    obtain ⟨_, _, _, _, rfl, rfl⟩ := finish_cases hfire
    exact ⟨abandon_onCall s c _, by simp [othersSee, Event.toCaller]⟩

theorem status_abandon (hcall : (s.abandon c).calls[c]? = some call) :
    call.status = .cancelled := by
  rw [calls_abandon, if_pos rfl] at hcall
  obtain ⟨_, _, rfl⟩ := Option.map_eq_some_iff.mp hcall
  rfl

/-- A caller that is gone can do nothing but go away once more. -/
theorem step_of_absent (h : (s.abandon c).step l = some (u, es)) (hl : l.byCaller c = true) :
    u = s.abandon c ∧ es = [] := by
  obtain rfl | rfl | rfl | rfl := Label.of_byCaller hl
  · obtain ⟨hact, rfl⟩ := step_act h
    obtain ⟨call, hcall, ⟨_, hheld, _⟩ | ⟨hheld, _⟩ | hsame⟩ := take_held_cases hact
    · cases (status_abandon hcall).symm.trans hheld
    · cases (status_abandon hcall).symm.trans hheld
    · exact ⟨hsame, rfl⟩
  · obtain ⟨hact, rfl⟩ := step_act h
    obtain ⟨call, _, hcall, hheld, _⟩ := wait_held_cases hact
    cases (status_abandon hcall).symm.trans hheld
  · obtain ⟨hact, rfl⟩ := step_act h
    obtain rfl := Option.some.inj hact
    exact ⟨cancel_abandon s c, rfl⟩
  · obtain ⟨e, hfire, rfl⟩ := step_move h
    obtain ⟨call, o, hcall, ho, _⟩ := finish_cases hfire
    simp [outcome?, status_abandon hcall] at ho

end Cluster

end Custody
