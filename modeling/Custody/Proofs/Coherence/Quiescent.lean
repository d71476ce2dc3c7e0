import Custody.Proofs.Cluster.Settle
import Custody.Proofs.Coherence.Exclusive
import Custody.Proofs.Coherence.Lossless

/-!
# Nobody waits in vain

A cluster is quiescent when neither the store nor a client can move; callers may still have to take
note of their outcomes. When only clients are called and none is stopped, a quiescent cluster has
leaked no key and missed no wakeup: each owned key lies in one client's cache, and a client with
something left to do waits for a key that another client has.
-/

namespace Custody

/-- A caller takes note of an outcome. -/
def Move.isNote : Move → Bool
  | finish _ => true
  | _ => false

namespace Cluster

def Quiescent (s : Cluster) : Prop := ∀ m, (∀ c, m ≠ .finish c) → s.fire m = none

def Caches (s : Cluster) (i : Nat) (k : Key) : Prop :=
  ∃ h v, s.hand i = some h ∧ h.cache[k]? = some v

/-- Client `i` has asked the store for `k` and heard nothing. -/
def Waits (s : Cluster) (i : Nat) (k : Key) : Prop := ∃ h, s.hand i = some h ∧ h.Awaits .get k

/-- Client `i` has an action in hand or in its inbox. -/
def Busy (s : Cluster) (i : Nat) : Prop :=
  ∃ m, s.members[i]? = some m ∧ (m.work ≠ none ∨ m.inbox.entries ≠ [])

variable {setup : Setup} {labels : List Label} {s : Cluster} {es : List Event} {i : Nat} {k : Key}
  {h : Hand} {m : Member}

/-- Only the listed moves can be possible, so that it can be checked whether a cluster is
quiescent. -/
theorem quiescent_of_moves
    (h : (s.moves.all fun mv => mv.isNote || (s.fire mv).isNone) = true) : s.Quiescent := by
  intro mv hmv
  cases hfire : s.fire mv with
  | none => rfl
  | some u =>
    have hlisted := List.all_eq_true.mp h mv (mem_moves (t := u.1) (e := u.2) hfire)
    rw [hfire] at hlisted
    cases mv with
    | finish c => exact absurd rfl (hmv c)
    | _ => cases hlisted

theorem lossless_run (allowed : ∀ l ∈ labels, Rules.clientsOnly.Allow l)
    (h : (start setup).run labels = some (s, es)) : s.scene.Coherent es ∧ s.scene.Lossless es := by
  refine scene_induction (P := fun a es => a.Coherent es ∧ a.Lossless es) ?_ ?_ allowed h
    (running_of_run id allowed h)
  · rw [scene_start]
    exact ⟨Scene.coherent_start _ fun i h => hand_start,
      Scene.lossless_start _ fun i h hi => (hand_start hi).2⟩
  · rintro a past now b ⟨coherent, lossless⟩ hstep
    have hwrites : ∀ v, ¬ Rules.clientsOnly.asks (.write v) := by
      rintro v ⟨name, hname⟩
      cases hname
    exact ⟨Scene.coherent_step hwrites coherent hstep, Scene.lossless_step coherent lossless hstep⟩

section

variable (lossless : s.scene.Lossless es) (hrun : s.keeper.running = true) (hquiet : s.Quiescent)

include lossless hrun hquiet

/-- In a quiescent cluster a client rests, or it is parked behind the key that it wants. -/
theorem work_of_quiescent (hi : s.hand i = some h) :
    h.work = none ∨ ∃ k, h.Awaits .get k ∧ s.keeper.store.waiter k = some (.client i) := by
  obtain ⟨m, hm, hmrun, rfl⟩ := hand_eq_some_iff.mp hi
  cases hwork : m.work with
  | none => exact Or.inl rfl
  | some w =>
    obtain ⟨⟨c, act, k⟩, slot⟩ := w
    have hempty : slot = .empty := by
      rcases slot_of_resume hm hwork (hquiet (.resume i) (by simp)) with hslot | hslot
      · exact hslot
      · exact absurd (by rw [hwork, hslot]) (lossless.unspent i _ ⟨c, act, k⟩ hi)
    subst hempty
    have hqueue : s.requests = [] := by
      rw [requests, entries_of_serve hrun (hquiet .serve (by simp))]
      rfl
    have hawaits : Hand.Awaits ⟨m.cache, m.work⟩ act k := ⟨c, hwork⟩
    obtain ⟨r, hr, _⟩ | ⟨rfl, hwaits⟩ := lossless.pending i _ act k hi hawaits
    · exact absurd hr (by simp [scene, hqueue])
    · exact Or.inr ⟨k, ⟨c, rfl⟩, hwaits⟩

theorem waiter_of_waits (hwaits : s.Waits i k) : s.keeper.store.waiter k = some (.client i) := by
  obtain ⟨h, hi, c, hwork⟩ := hwaits
  obtain hidle | ⟨k', ⟨c', hwork'⟩, hwaiter⟩ := work_of_quiescent lossless hrun hquiet hi
  · rw [hidle] at hwork
    cases hwork
  · rw [hwork] at hwork'
    cases hwork'
    exact hwaiter

/-- A client's queue is empty unless it waits for a key. -/
theorem waits_of_busy (hm : s.members[i]? = some m) (hmrun : m.running = true)
    (hbusy : m.work ≠ none ∨ m.inbox.entries ≠ []) : ∃ k, s.Waits i k := by
  have hi := hand_of_member hm hmrun
  obtain hidle | ⟨k, hawaits, _⟩ := work_of_quiescent lossless hrun hquiet hi
  · have hempty := entries_of_begin hm hmrun hidle (hquiet (.begin i) (by simp))
    rcases hbusy with hwork | hinbox
    · exact absurd hidle hwork
    · exact absurd hempty hinbox
  · exact ⟨k, _, hi, hawaits⟩

/-- In a quiescent cluster the custodian of a key is the client that has it cached. -/
theorem caches_iff_of_quiescent (coherent : s.scene.Coherent es) :
    s.Caches i k ↔ custody es k = some (.client i) := by
  have hcached : ∀ j h, s.hand j = some h → (h.Holds k ↔ ∃ v, h.cache[k]? = some v) := by
    intro j h hj
    refine Hand.holds_of_unanswered fun job u hfull => ?_
    obtain hidle | ⟨k', ⟨c, hwork⟩, _⟩ := work_of_quiescent lossless hrun hquiet hj
    · rw [hidle] at hfull
      cases hfull
    · rw [hwork] at hfull
      cases hfull
  constructor
  · rintro ⟨h, v, hi, hcache⟩
    exact coherent.held i h k hi ((hcached i h hi).mpr ⟨v, hcache⟩)
  · intro hcustody
    obtain ⟨j, h, hj, hi, hk⟩ := lossless.kept k _ hcustody
    obtain rfl := Custodian.client.inj hj
    obtain ⟨v, hcache⟩ := (hcached i h hi).mp hk
    exact ⟨h, v, hi, hcache⟩

theorem isOwned_iff_of_quiescent (coherent : s.scene.Coherent es) :
    s.keeper.store.isOwned k = true ↔ ∃ i, s.Caches i k := by
  constructor
  · intro howned
    obtain ⟨x, hx⟩ := Option.isSome_iff_exists.mp ((coherent.owned k).symm.trans howned)
    obtain ⟨i, _, rfl, _⟩ := lossless.kept k x hx
    exact ⟨i, (caches_iff_of_quiescent lossless hrun hquiet coherent).mpr hx⟩
  · rintro ⟨i, hi⟩
    exact coherent.isOwned ((caches_iff_of_quiescent lossless hrun hquiet coherent).mp hi)

theorem caches_unique_of_quiescent (coherent : s.scene.Coherent es) {j : Nat}
    (hi : s.Caches i k) (hj : s.Caches j k) : j = i := by
  rw [caches_iff_of_quiescent lossless hrun hquiet coherent] at hi hj
  exact Custodian.client.inj (Option.some.inj (hj.symm.trans hi))

end

/-- A client does not wait for a key that it has cached. -/
theorem not_caches_of_waits (coherent : s.scene.Coherent es) (hwaits : s.Waits i k) :
    ¬ s.Caches i k := by
  obtain ⟨h, hi, c, hwork⟩ := hwaits
  have hmiss : h.cache[k]? = none := coherent.sound i h hi _ hwork
  rintro ⟨h', v, hi', hcache⟩
  obtain rfl := Option.some.inj (hi.symm.trans hi')
  rw [hcache] at hmiss
  cases hmiss

theorem no_leak_no_lost_wakeup (allowed : ∀ l ∈ labels, Rules.clientsOnly.Allow l)
    (h : (start setup).run labels = some (s, es)) (hquiet : s.Quiescent) :
    (∀ k, s.keeper.store.isOwned k = true ↔ ∃! i, s.Caches i k) ∧
    (∀ k, s.keeper.store.isOwned k = false → ∀ i, ¬ s.Caches i k) ∧
    (∀ i, s.Busy i → ∃ k, s.Waits i k ∧ ¬ s.Caches i k ∧
      s.keeper.store.waiter k = some (.client i) ∧ ∃ j, j ≠ i ∧ s.Caches j k) ∧
    ∀ i j k, s.Waits i k → s.Waits j k → i = j := by
  obtain ⟨coherent, lossless⟩ := lossless_run allowed h
  have attended := attended_run allowed (attended_start setup) h
  have hrun := (attended.kept id).2
  have howner : ∀ k, s.keeper.store.isOwned k = true ↔ ∃ i, s.Caches i k := fun k =>
    isOwned_iff_of_quiescent lossless hrun hquiet coherent
  refine ⟨fun k => ⟨fun howned => ?_, fun ⟨i, hi, _⟩ => (howner k).mpr ⟨i, hi⟩⟩, ?_, ?_, ?_⟩
  · obtain ⟨i, hi⟩ := (howner k).mp howned
    exact ⟨i, hi, fun j hj => caches_unique_of_quiescent lossless hrun hquiet coherent hi hj⟩
  · intro k hfree i hi
    exact absurd ((howner k).mpr ⟨i, hi⟩) (ne_true_of_eq_false hfree)
  · rintro i ⟨m, hm, hbusy⟩
    have hmrun := ((attended.orderly i m hm).2 id).2
    obtain ⟨k, hwaits⟩ := waits_of_busy lossless hrun hquiet hm hmrun hbusy
    have hmiss := not_caches_of_waits coherent hwaits
    have hwaiter := waiter_of_waits lossless hrun hquiet hwaits
    obtain ⟨j, hj⟩ := (howner k).mp (lossless.waiting k _ hwaiter).1
    refine ⟨k, hwaits, hmiss, hwaiter, j, ?_, hj⟩
    rintro rfl
    exact hmiss hj
  · intro i j k hi hj
    have hwi := waiter_of_waits lossless hrun hquiet hi
    have hwj := waiter_of_waits lossless hrun hquiet hj
    exact Requester.client.inj (Option.some.inj (hwi.symm.trans hwj))

/-- Client 0 has a key that client 1 waits for, with another get behind it. -/
def waitingLabels : List Label :=
  [.act (.call (.client 0 .get .attached) "k"), .move (.begin 0), .move .serve, .move (.resume 0),
    .act (.call (.client 1 .get .attached) "k"), .move (.begin 1), .move .serve,
    .act (.call (.client 1 .get .attached) "l")]

theorem no_leak_no_lost_wakeup_of_waiting :
    ∃ s es, (start ⟨[⟨"a", 1⟩, ⟨"b", 1⟩], 1⟩).run waitingLabels = some (s, es) ∧ s.Quiescent ∧
      s.Busy 1 ∧ (∃! i, s.Caches i "k") ∧ s.keeper.store.isOwned "l" = false ∧
      (∀ i, ¬ s.Caches i "l") ∧ ∃ k, s.Waits 1 k ∧ ¬ s.Caches 1 k ∧
        s.keeper.store.waiter k = some (.client 1) ∧ ∃ j, j ≠ 1 ∧ s.Caches j k := by
  have allowed : ∀ l ∈ waitingLabels, Rules.clientsOnly.Allow l := by
    simp [waitingLabels, Rules.Allow]
  obtain ⟨s, es, h, hquiet, hbusy, hk, hl⟩ : ∃ s es,
      (start ⟨[⟨"a", 1⟩, ⟨"b", 1⟩], 1⟩).run waitingLabels = some (s, es) ∧ s.Quiescent ∧
        s.Busy 1 ∧ s.keeper.store.isOwned "k" = true ∧ s.keeper.store.isOwned "l" = false := by
    refine ⟨_, _, rfl, ?_, ⟨_, rfl, Or.inr (by decide)⟩, rfl, rfl⟩
    intro m hm
    cases m with
    | serve => rfl
    | begin i =>
      rcases i with _ | _ | i
      · rfl
      · rfl
      · rfl
    | resume i =>
      rcases i with _ | _ | i
      · rfl
      · rfl
      · rfl
    | leave i =>
      rcases i with _ | _ | i
      · rfl
      · rfl
      · rfl
    | retire => rfl
    | finish c => exact absurd rfl (hm c)
  obtain ⟨howned, hfree, hbusies, _⟩ := no_leak_no_lost_wakeup allowed h hquiet
  exact ⟨s, es, h, hquiet, hbusy, (howned "k").mp hk, hl, hfree "l" hl, hbusies 1 hbusy⟩

end Cluster

end Custody
