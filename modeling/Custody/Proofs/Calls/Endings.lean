import Custody.Proofs.Calls.Acts
import Custody.Proofs.Cluster.Settle
import Custody.Proofs.Coherence.Quiescent

/-!
# No call is lost

While no actor is killed, every call comes to an end of its own or waits for a key that somebody
owns, and an error means what it says. The one way for a request to come to nothing is that it was
a read that had to wait, and another read of the same key took its place.
-/

namespace Custody

/-- How a call has ended for a caller that waited, or that looked and found the reply. -/
def Call.Ended (call : Call) (o : Outcome) : Prop :=
  call.status = .ended o ∨ ∃ a, call.status = .taken a ∧ o = .answered a

/-- How call `c` may end: with an answer, or without one if it was a read of the store that was
parked and displaced. -/
def EndsWell (es : List Event) (c : Nat) (call : Call) (o : Outcome) : Prop :=
  match call.target with
  | .client i act _ => ∃ r, o = .answered (.client r) ∧ .answered i ⟨c, act, call.key⟩ r ∈ es
  | .store op => (o = .failed (.failure .replyDropped) ∨ ∃ r, o = .answered (.store r)) ∧
      (o = .failed (.failure .replyDropped) ↔ op = .read ∧ Displaced es (.caller c) call.key)
  | .snapshot => ∃ shot, o = .answered (.snapshot shot)

/-- What has arrived when a call ends. -/
theorem Call.Ended.receipt {call : Call} {o : Outcome} (h : call.Ended o) :
    call.status.heeds = true ∧ call.status.receipt = (Status.ended o).receipt := by
  obtain hended | ⟨a, htaken, rfl⟩ := h
  · rw [hended]
    exact ⟨rfl, rfl⟩
  · rw [htaken]
    exact ⟨rfl, rfl⟩

namespace Cluster

/-- When client `i` takes up a put of a key that it has cached, the put comes off whatever happens
then; if it has not cached the key, the put fails at once. -/
def PutsCached (s : Cluster) (i : Nat) : Prop :=
  ∀ m job rest v, s.members[i]? = some m → m.running = true → m.work = none →
    m.inbox.entries = job :: rest → job.action = .put v →
    (job.key ∈ m.cache → ∃ t, s.begin i = some (t, .asked i job) ∧
      ∀ labels u es, (∀ l ∈ labels, l.Gentle) → t.run labels = some (u, es) →
        ∀ r, .answered i job r ∈ es → r = .released) ∧
    (job.key ∉ m.cache → ∃ t, s.begin i = some (t, .answered i job (.failed .localCacheMiss)))

/-- A call waits for an owned key: its own read is parked there, or its client's. -/
def WaitsForOwned (s : Cluster) (c : Nat) (call : Call) : Prop :=
  ∃ k, s.keeper.store.isOwned k = true ∧
    match call.target with
    | .client i _ _ => s.Waits i k ∧ s.keeper.store.waiter k = some (.client i)
    | .store op => op = .read ∧ call.key = k ∧ s.keeper.store.waiter k = some (.caller c)
    | .snapshot => False

variable {s t : Cluster} {es : List Event} {e : Event} {c i : Nat} {call : Call} {o : Outcome}
  {m : Member} {job : Job}

/-! ## How calls end -/

theorem Kept.dropped_iff {op : Operation} (kept : s.Kept es) (hcall : s.calls[c]? = some call)
    (htarget : call.target = .store op) (hheeds : call.status.heeds = true) :
    call.status.receipt = .dropped ↔ op = .read ∧ Displaced es (.caller c) call.key := by
  have hlost := kept.traced.lost (.caller c) _ (inquiry_of_store hcall htarget) hheeds
  rw [since_caller] at hlost
  exact hlost

theorem Kept.dropped (kept : s.Kept es) (hcall : s.calls[c]? = some call)
    (htarget : call.target = .store .read) (hdisplaced : Displaced es (.caller c) call.key) :
    call.Dropped ∨ call.status = .cancelled := by
  by_cases hgone : call.status = .cancelled
  · exact Or.inr hgone
  · have hheeds : call.status.heeds = true := by
      cases hstatus : call.status with
      | cancelled => exact absurd hstatus hgone
      | _ => rfl
    have hdropped := (kept.dropped_iff hcall htarget hheeds).mpr ⟨rfl, hdisplaced⟩
    exact Or.inl ((kept.booked.accounted c call hcall).of_dropped hdropped).1

theorem Kept.endsWell (kept : s.Kept es) (hcall : s.calls[c]? = some call)
    (hended : call.Ended o) : EndsWell es c call o := by
  have haccounts := kept.booked.accounted c call hcall
  obtain ⟨hheeds, hreceipt⟩ := hended.receipt
  cases o with
  | answered a =>
    have hanswers := haccounts.answers hreceipt
    cases a with
    | client r =>
      obtain ⟨i, act, manner, htarget, hanswered⟩ := hanswers
      rw [EndsWell, htarget]
      exact ⟨r, rfl, hanswered⟩
    | store r =>
      obtain ⟨op, htarget⟩ := hanswers
      have hkept : ¬ (op = .read ∧ Displaced es (.caller c) call.key) := by
        intro hdisplaced
        cases hreceipt.symm.trans ((kept.dropped_iff hcall htarget hheeds).mpr hdisplaced)
      rw [EndsWell, htarget]
      exact ⟨Or.inr ⟨r, rfl⟩, nofun, fun h => absurd h hkept⟩
    | snapshot shot =>
      have htarget : call.target = .snapshot := hanswers
      rw [EndsWell, htarget]
      exact ⟨shot, rfl⟩
  | failed f =>
    obtain ⟨hlost, op, htarget⟩ := haccounts.of_dropped hreceipt
    have hdropped : f = .failure .replyDropped := by
      rcases hended with hended | ⟨a, _, hanswered⟩
      · rcases hlost with hlost | hlost
        · cases hended.symm.trans hlost
        · cases hended.symm.trans hlost
          rfl
      · cases hanswered
    have hdisplaced := (kept.dropped_iff hcall htarget hheeds).mp hreceipt
    rw [EndsWell, htarget, hdropped]
    exact ⟨Or.inl rfl, fun _ => hdisplaced, fun _ => rfl⟩
  | void => exact absurd hreceipt haccounts.unspent

/-! ## Puts of cached keys -/

theorem Kept.putsCached (kept : s.Kept es) (i : Nat) : s.PutsCached i := by
  intro m job rest v hm hrun hidle hentries hput
  have hkeeper := kept.keeper_of_running hm hrun
  constructor
  · intro hcached
    obtain ⟨t, hbegin⟩ : ∃ t, s.begin i = some (t, .asked i job) := by
      simp [begin, hm, hrun, hidle, hentries, hput, Cache.start, hcached, hkeeper]
    refine ⟨t, hbegin, ?_⟩
    intro labels u later gentle hrun' r hr
    have hkept := kept_run (kept_begin kept hbegin) gentle hrun'
    obtain ⟨early, late, rfl⟩ := List.append_of_mem hr
    have hright := hkept.truthful (es ++ [.asked i job] ++ early) i job r late (by simp)
    rw [Right, hput] at hright
    obtain ⟨_, hreleased⟩ | ⟨hunasked, _⟩ := hright
    · exact hreleased
    · exact absurd (by simp) hunasked
  · intro hmiss
    simp [begin, hm, hrun, hidle, hentries, hput, Cache.start, hmiss, reply]

/-! ## At rest -/

section

variable (kept : s.Kept es) (hrest : s.atRest = true)

include kept hrest

theorem Kept.entries_of_atRest : s.keeper.inbox.entries = [] := by
  cases hrun : s.keeper.running with
  | false => exact kept.staffed.cleared hrun
  | true => exact entries_of_serve hrun (fire_of_atRest hrest .serve)

/-- At rest an open inquiry is parked. -/
theorem Kept.waits_of_open {x : Requester} {q : Inquiry} (hq : s.inquiry x = some q)
    (hlive : q.live = true) (hopen : q.slot = .empty) :
    q.op = .read ∧ s.keeper.store.waiter q.key = some x := by
  rcases kept.traced.pending x q hq hlive hopen with ⟨r, hr, _⟩ | hwaits
  · have hempty : s.docket.queue = [] := by
      rw [docket, requests, kept.entries_of_atRest hrest]
      rfl
    rw [hempty] at hr
    cases hr
  · exact hwaits

/-- At rest a client that has something to do is parked. -/
theorem Kept.waits_of_jobs (hm : s.members[i]? = some m) (hrun : m.running = true)
    (hjob : job ∈ m.jobs) : ∃ k, s.Waits i k ∧ s.keeper.store.waiter k = some (.client i) := by
  cases hwork : m.work with
  | none =>
    have hentries := entries_of_begin hm hrun hwork (fire_of_atRest hrest (.begin i))
    rw [Member.jobs, hwork, hentries] at hjob
    cases hjob
  | some w =>
    obtain ⟨⟨id, act, k⟩, slot⟩ := w
    have hq := inquiry_of_work hm hwork
    obtain rfl : slot = .empty := by
      rcases slot_of_resume hm hwork (fire_of_atRest hrest (.resume i)) with hslot | hslot
      · exact hslot
      · have hunspent := kept.traced.unspent (.client i) _ hq
        rw [hslot] at hunspent
        exact absurd rfl hunspent
    obtain ⟨hread, hwaits⟩ := kept.waits_of_open hrest hq rfl rfl
    refine ⟨k, ⟨_, hand_of_member hm hrun, id, ?_⟩, hwaits⟩
    cases act with
    | get => exact hwork
    | put v => cases hread
    | unsupported name => cases hread

theorem Kept.waits_of_pending (hcall : s.calls[c]? = some call) (hpending : call.isPending = true) :
    (∃ a, call.status = .pending true (.full a)) ∨ s.WaitsForOwned c call := by
  have hdone : ∀ slot, call.status = .pending false slot → slot = .empty := by
    intro slot hstatus
    have hfinish : s.finish c = none := fire_of_atRest hrest (.finish c)
    cases slot with
    | empty => rfl
    | _ => simp [finish, hcall, outcome?, hstatus] at hfinish
  have howned : ∀ k x, s.keeper.store.waiter k = some x → s.keeper.store.isOwned k = true :=
    kept.traced.sound.owned
  cases kept.booked.accounted c call hcall with
  | gone hgone =>
    rw [Call.isPending, hgone] at hpending
    cases hpending
  | underway hopen hcarries =>
    right
    unfold Carries at hcarries
    unfold WaitsForOwned
    cases htarget : call.target with
    | client i act manner =>
      rw [htarget] at hcarries
      obtain ⟨m, hm, hrun, hjob⟩ := hcarries
      obtain ⟨k, hwaits, hwaiter⟩ := kept.waits_of_jobs hrest hm hrun hjob
      exact ⟨k, howned k _ hwaiter, hwaits, hwaiter⟩
    | store op =>
      rw [htarget] at hcarries
      have hq := inquiry_of_store hcall htarget
      rw [hcarries] at hq
      obtain ⟨hread, hwaiter⟩ := kept.waits_of_open hrest hq rfl rfl
      exact ⟨call.key, howned _ _ hwaiter, hread, rfl, hwaiter⟩
    | snapshot =>
      rw [htarget] at hcarries
      dsimp only at hcarries
      rw [kept.entries_of_atRest hrest] at hcarries
      cases hcarries
  | answered a hfull =>
    left
    cases hstatus : call.status with
    | pending held slot =>
      rw [hstatus] at hfull
      obtain rfl : slot = .full a := hfull
      cases held with
      | false => cases hdone _ hstatus
      | true => exact ⟨a, rfl⟩
    | _ =>
      rw [Call.isPending, hstatus] at hpending
      cases hpending
  | lost op _ hlost =>
    rcases hlost with hstatus | hstatus
    · cases hdone _ hstatus
    · rw [Call.isPending, hstatus] at hpending
      cases hpending

end

/-- While no actor is killed, calls on clients and for snapshots are answered, and a call on the
store is answered unless it was displaced; every reply of a client is right, and a put of a cached
key comes off. Left to themselves the actors come to rest, and then a caller that still waits does
so for an owned key. -/
theorem no_call_is_lost {setup : Setup} {labels : List Label} (gentle : ∀ l ∈ labels, l.Gentle)
    (h : (start setup).run labels = some (s, es)) :
    (∀ c call o, s.calls[c]? = some call → call.Ended o → EndsWell es c call o) ∧
    (∀ (c : Nat) call, s.calls[c]? = some call → call.target = .store .read →
      Displaced es (.caller c) call.key → call.Dropped ∨ call.status = .cancelled) ∧
    Truthful es ∧ (∀ i, s.PutsCached i) ∧
    (∀ (moves : List Move) t later, s.run (moves.map .move) = some (t, later) →
      moves.length ≤ s.load) ∧
    (s.atRest = true → ∀ c call, s.calls[c]? = some call → call.isPending = true →
      (∃ a, call.status = .pending true (.full a)) ∨ s.WaitsForOwned c call) := by
  have kept : s.Kept es := kept_run (kept_start setup) gentle h
  refine ⟨?_, ?_, kept.truthful, kept.putsCached, ?_, ?_⟩
  · exact fun c call o hcall hended => kept.endsWell hcall hended
  · exact fun c call hcall htarget hdisplaced => kept.dropped hcall htarget hdisplaced
  · intro moves t later hrun
    have hload := load_run hrun
    omega
  · exact fun hrest c call hcall hpending => kept.waits_of_pending hrest hcall hpending

/-- A caller of the store owns a key. A client waits for it, then another caller, then a third, and
each takes the place of the one before. -/
def displacingLabels : List Label :=
  [.act (.call (.store .read) "k"), .move .serve, .move (.finish 0),
    .act (.call (.client 0 .get .attached) "k"), .move (.begin 0), .move .serve,
    .act (.call (.store .read) "k"), .move .serve, .move (.resume 0), .move (.finish 1),
    .act (.call (.store .read) "k"), .move .serve, .move (.finish 2)]

theorem no_call_is_lost_of_displaced :
    ∃ s es, (start ⟨[⟨"a", 1⟩], 1⟩).run displacingLabels = some (s, es) ∧
      (∀ l ∈ displacingLabels, l.Gentle) ∧ s.atRest = true ∧
      (∃ call, s.calls[2]? = some call ∧ call.Ended (.failed (.failure .replyDropped)) ∧
        Displaced es (.caller 2) "k") ∧
      (∃ r, .answered 0 ⟨1, .get, "k"⟩ r ∈ es ∧ Right (es.take 5) 0 ⟨1, .get, "k"⟩ r) ∧
      ∃ call, s.calls[3]? = some call ∧ call.isPending = true ∧ s.WaitsForOwned 3 call := by
  have gentle : ∀ l ∈ displacingLabels, l.Gentle := by simp [displacingLabels, Label.Gentle]
  obtain ⟨s, es, h, hrest, h2, hes, h3⟩ : ∃ s es,
      (start ⟨[⟨"a", 1⟩], 1⟩).run displacingLabels = some (s, es) ∧ s.atRest = true ∧
        s.calls[2]? = some ⟨.store .read, "k", .ended (.failed (.failure .replyDropped))⟩ ∧
        (∃ late, es = es.take 5 ++ .answered 0 ⟨1, .get, "k"⟩ (.failed .readFailed) :: late) ∧
        s.calls[3]? = some ⟨.store .read, "k", .pending false .empty⟩ :=
    ⟨_, _, rfl, rfl, rfl, ⟨_, rfl⟩, rfl⟩
  obtain ⟨hends, _, htruthful, _, _, hwaits⟩ := no_call_is_lost gentle h
  refine ⟨s, es, h, gentle, hrest, ⟨_, h2, Or.inl rfl, ?_⟩, ?_, ⟨_, h3, rfl, ?_⟩⟩
  · exact ((hends 2 _ _ h2 (Or.inl rfl)).2.mp rfl).2
  · obtain ⟨late, hsplit⟩ := hes
    refine ⟨_, ?_, htruthful _ _ _ _ late hsplit⟩
    rw [hsplit]
    simp
  · rcases hwaits hrest 3 _ h3 rfl with ⟨a, ha⟩ | hwaits
    · cases ha
    · exact hwaits

end Cluster

end Custody
