import Custody.Proofs.Walkthrough.Stages

/-!
# Closing down

When the walkthrough lets go of the handles, nothing is on its way and nobody waits. So all that the
actors can still do is stop, and where nobody can move any more all of them have stopped.
-/

namespace Custody

namespace Cluster

variable {s t : Cluster} {e : Event} {i : Nat} {m : Member} {move : Move}

/-- No handle is left, and there is nothing to do. -/
structure Closing (s : Cluster) : Prop where
  handle : s.keeper.handle = false
  inbox : s.keeper.inbox.entries = []
  waiters : s.keeper.store.waiters = ∅
  members : ∀ m ∈ s.members, m.handle = false ∧ m.inbox.entries = [] ∧ m.work = none
  calls : ∀ call ∈ s.calls, call.isPending = false

def Stopped (s : Cluster) : Prop :=
  s.keeper.running = false ∧ ∀ m ∈ s.members, m.running = false

namespace Closing

theorem reaches_eq (closing : s.Closing) (hm : m ∈ s.members) : s.reaches i m = false := by
  rw [reaches, (closing.members m hm).1, Bool.false_or, List.any_eq_false]
  intro call hcall
  have hgone := closing.calls call hcall
  unfold Call.attachedTo
  split
  · simp [hgone]
  · simp

theorem reachesStore_eq (closing : s.Closing) (hstopped : ∀ m ∈ s.members, m.running = false) :
    s.reachesStore = false := by
  have hcalls : s.calls.any (·.onStore) = false := by
    rw [List.any_eq_false]
    intro call hcall
    have hgone := closing.calls call hcall
    unfold Call.onStore
    split
    · simp
    · simp [hgone]
  have hmembers : s.members.any (·.running) = false := by
    rw [List.any_eq_false]
    intro m hm
    simp [hstopped m hm]
  rw [reachesStore, closing.handle, hmembers, hcalls]
  rfl

theorem leave (closing : s.Closing) (h : s.leave i = some (t, e)) : t.Closing := by
  obtain ⟨m, hm, _, _, _, _, rfl, _⟩ := leave_cases h
  refine ⟨closing.handle, closing.inbox, closing.waiters, fun m' hm' => ?_, closing.calls⟩
  obtain ⟨j, hj⟩ := List.getElem?_of_mem hm'
  rw [members_onMember] at hj
  split at hj
  · obtain ⟨m₁, hm₁, rfl⟩ := Option.map_eq_some_iff.mp hj
    have hdown := closing.members m₁ (List.mem_of_getElem? hm₁)
    exact ⟨hdown.1, rfl, rfl⟩
  · exact closing.members m' (List.mem_of_getElem? hj)

theorem retire (closing : s.Closing) (h : s.retire = some (t, e)) : t.Closing := by
  obtain ⟨_, _, _, rfl, _⟩ := retire_cases h
  have hsame : s.dropWaiters = s := by
    rw [dropWaiters, closing.waiters]
    rfl
  rw [hsame]
  exact ⟨closing.handle, rfl, rfl, closing.members, closing.calls⟩

/-- The only thing an actor can do is stop. -/
theorem stops_of_fire (closing : s.Closing) (h : s.fire move = some (t, e)) :
    (∃ i, s.leave i = some (t, e)) ∨ s.retire = some (t, e) := by
  cases move with
  | serve =>
    obtain ⟨_, rest, ⟨r, hentries, _⟩ | ⟨c, hentries, _⟩⟩ := serve_cases h
    · cases closing.inbox.symm.trans hentries
    · cases closing.inbox.symm.trans hentries
  | begin i =>
    obtain ⟨m, job, rest, cache, hm, _, _, hentries, _⟩ := begin_cases h
    cases (closing.members m (List.mem_of_getElem? hm)).2.1.symm.trans hentries
  | resume i =>
    obtain ⟨m, job, slot, answer, cache, r, hm, hwork, _⟩ := resume_cases h
    cases (closing.members m (List.mem_of_getElem? hm)).2.2.symm.trans hwork
  | leave i => exact Or.inl ⟨i, h⟩
  | retire => exact Or.inr h
  | finish c =>
    obtain ⟨call, o, hcall, ho, _⟩ := finish_cases h
    cases (closing.calls call (List.mem_of_getElem? hcall)).symm.trans (pending_of_outcome ho)

theorem fire (closing : s.Closing) (h : s.fire move = some (t, e)) : t.Closing := by
  obtain ⟨i, hleave⟩ | hretire := closing.stops_of_fire h
  · exact closing.leave hleave
  · exact closing.retire hretire

/-- An actor that runs can stop, the store after the clients. -/
theorem stopped_of_stuck (closing : s.Closing) (hstuck : ∀ move, s.fire move = none) :
    s.Stopped := by
  have hmembers : ∀ m ∈ s.members, m.running = false := by
    intro m hm
    by_contra hrun
    obtain ⟨i, hi⟩ := List.getElem?_of_mem hm
    obtain ⟨_, hentries, hwork⟩ := closing.members m hm
    have hleave : s.leave i = none := hstuck (.leave i)
    simp [Cluster.leave, hi, hrun, hentries, hwork, closing.reaches_eq hm] at hleave
  have hkeeper : s.keeper.running = false := by
    by_contra hrun
    have hretire : s.retire = none := hstuck .retire
    simp [Cluster.retire, hrun, closing.inbox, closing.reachesStore_eq hmembers] at hretire
  exact ⟨hkeeper, hmembers⟩

/-- Where all have stopped, nothing happens any more. -/
theorem not_fire_of_stopped (closing : s.Closing) (stopped : s.Stopped) :
    s.fire move ≠ some (t, e) := by
  intro h
  obtain ⟨i, hleave⟩ | hretire := closing.stops_of_fire h
  · obtain ⟨m, hm, hrun, _⟩ := leave_cases hleave
    cases (stopped.2 m (List.mem_of_getElem? hm)).symm.trans hrun
  · cases stopped.1.symm.trans (retire_cases hretire).1

end Closing

end Cluster

namespace Walkthrough

variable {depth i : Nat} {w : Walkthrough} {second : Value} {x : Seat} {queue : List Command}
  {look : Option Query}

theorem allStopped_iff : w.allStopped = true ↔ w.cluster.Stopped := by
  simp [allStopped, Cluster.Stopped]

theorem task_of_quiet (hx : (quiet second queue look).seats[i]? = some x) : x.task = none := by
  obtain _ | _ | i := i
  · obtain rfl := Option.some.inj hx
    rfl
  · obtain rfl := Option.some.inj hx
    rfl
  · cases hx

/-- The handles are let go of when both clients rest and nothing is on its way. -/
theorem closing_letGo (shows : Shows depth w.cluster (quiet second [] none)) :
    w.letGo.cluster.Closing where
  handle := rfl
  inbox := congrArg (fun k : Keeper => k.inbox.entries) shows.keeper
  waiters := congrArg (fun k : Keeper => k.store.waiters) shows.keeper
  members m hm := by
    obtain ⟨m', hm', rfl⟩ := List.mem_map.mp hm
    obtain ⟨i, hi⟩ := List.getElem?_of_mem hm'
    obtain ⟨x, hx, rfl⟩ := shows.member_some hi
    simp [Seat.member, task_of_quiet hx]
  calls call hcall := by
    by_contra hpending
    obtain ⟨c, hc⟩ := List.getElem?_of_mem hcall
    obtain ⟨i, x, t, hx, htask, _⟩ | ⟨q, hq, _⟩ :=
      shows.closed c call hc (by simpa using hpending)
    · cases (task_of_quiet hx).symm.trans htask
    · cases hq

end Walkthrough

end Custody
