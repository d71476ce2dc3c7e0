import Custody.Proofs.Cluster.Inversion

/-!
# Rules of a run

Rules say what may be done to a cluster from outside: which operations callers of the store may
ask for, whether clients may be stopped, whether the store's handle may be let go of. No rules
let the store be killed. Whatever the rules, a store that has stopped has outlived its members;
under rules that stop no client, every member stays at work.
-/

namespace Custody

structure Rules where
  asks : Operation → Prop
  stops : Prop
  closes : Prop

def Rules.Allow (R : Rules) : Label → Prop
  | .act (.call (.store op) _) => R.asks op
  | .act (.closeClient _) => R.stops
  | .act (.killClient _) => R.stops
  | .act .closeStore => R.closes
  | .act .killStore => False
  | _ => True

theorem Rules.allow_snoc {R : Rules} {labels : List Label} {l : Label}
    (allowed : ∀ k ∈ labels, R.Allow k) (hl : R.Allow l) : ∀ k ∈ labels ++ [l], R.Allow k := by
  intro k hk
  rcases List.mem_append.mp hk with hk | hk
  · exact allowed k hk
  · rw [List.mem_singleton.mp hk]
    exact hl

namespace Cluster

variable {s t : Cluster}

theorem step_act {a : Act} {es : List Event} (h : s.step (.act a) = some (t, es)) :
    s.perform a = some t ∧ es = [] := by
  obtain ⟨u, hu, h⟩ := Option.map_eq_some_iff.mp h
  obtain ⟨rfl, rfl⟩ := Prod.mk.inj h
  exact ⟨hu, rfl⟩

theorem step_move {m : Move} {es : List Event} (h : s.step (.move m) = some (t, es)) :
    ∃ e, s.fire m = some (t, e) ∧ es = [e] := by
  obtain ⟨⟨u, e⟩, hu, h⟩ := Option.map_eq_some_iff.mp h
  obtain ⟨rfl, rfl⟩ := Prod.mk.inj h
  exact ⟨e, hu, rfl⟩

theorem run_cons {l : Label} {rest : List Label} {es : List Event}
    (h : s.run (l :: rest) = some (t, es)) :
    ∃ u now later, s.step l = some (u, now) ∧ u.run rest = some (t, later) ∧
      es = now ++ later := by
  obtain ⟨⟨u, now⟩, hu, h⟩ := Option.bind_eq_some_iff.mp h
  obtain ⟨⟨v, later⟩, hv, h⟩ := Option.bind_eq_some_iff.mp h
  obtain ⟨rfl, rfl⟩ := Prod.mk.inj (Option.some.inj h)
  exact ⟨u, now, later, hu, hv, rfl⟩

theorem run_append {labels rest : List Label} {u : Cluster} {es now : List Event}
    (h : s.run labels = some (t, es)) (hrest : t.run rest = some (u, now)) :
    s.run (labels ++ rest) = some (u, es ++ now) := by
  induction labels generalizing s es with
  | nil =>
    obtain ⟨rfl, rfl⟩ := Prod.mk.inj (Option.some.inj h)
    exact hrest
  | cons l labels ih =>
    obtain ⟨v, first, later, hv, hlater, rfl⟩ := run_cons h
    rw [List.cons_append, run, hv]
    simp [ih hlater]

theorem run_snoc {labels : List Label} {l : Label} {u : Cluster} {es now : List Event}
    (h : s.run labels = some (t, es)) (hstep : t.step l = some (u, now)) :
    s.run (labels ++ [l]) = some (u, es ++ now) :=
  run_append h (by simp [run, hstep])

theorem Reaches.refl (s : Cluster) : s.Reaches s := ⟨[], [], rfl⟩

theorem Reaches.trans {u : Cluster} (h : s.Reaches t) (h' : t.Reaches u) : s.Reaches u := by
  obtain ⟨labels, es, hrun⟩ := h
  obtain ⟨rest, now, hrest⟩ := h'
  exact ⟨labels ++ rest, es ++ now, run_append hrun hrest⟩

theorem reaches_perform {a : Act} (h : s.perform a = some t) : s.Reaches t :=
  ⟨[.act a], [], by simp [run, step, h]⟩

/-- What holds at the start and is kept by every allowed step holds after every allowed run. -/
theorem run_induction {A : Label → Prop} {P : Cluster → List Event → Prop}
    (keeps : ∀ s past l t now, A l → P s past → s.step l = some (t, now) →
      P t (past ++ now))
    {labels : List Label} (allowed : ∀ l ∈ labels, A l) (past : List Event)
    {es : List Event} (start : P s past) (h : s.run labels = some (t, es)) : P t (past ++ es) := by
  induction labels generalizing s past es with
  | nil =>
    obtain ⟨rfl, rfl⟩ := Prod.mk.inj (Option.some.inj h)
    simpa using start
  | cons l rest ih =>
    obtain ⟨u, now, later, hu, hrest, rfl⟩ := run_cons h
    have hkept := keeps s past l u now (allowed l List.mem_cons_self) start hu
    have hlast := ih (fun k hk => allowed k (List.mem_cons_of_mem l hk)) _ hkept hrest
    simpa [List.append_assoc] using hlast

/-! ## Attendance -/

/-- A member that has stopped has no work in hand, and under rules that stop no client there is
no such member. -/
def Orderly (R : Rules) (m : Member) : Prop :=
  (m.running = false → m.work = none) ∧ (¬ R.stops → m.handle = true ∧ m.running = true)

/-- Who is at work. -/
structure Attended (R : Rules) (s : Cluster) : Prop where
  orderly : ∀ (i : Nat) m, s.members[i]? = some m → Orderly R m
  outlived : s.keeper.running = false → ∀ (i : Nat) m, s.members[i]? = some m → m.running = false
  kept : ¬ R.closes → s.keeper.handle = true ∧ s.keeper.running = true

variable {R : Rules}

theorem attended_start (setup : Setup) : Attended R (start setup) where
  orderly := by
    intro i m hm
    simp only [start, List.getElem?_map, Option.map_eq_some_iff] at hm
    obtain ⟨client, _, rfl⟩ := hm
    exact ⟨by simp [Member.start], fun _ => ⟨rfl, rfl⟩⟩
  outlived := by simp [start]
  kept := by simp [start]

/-- Members may change as long as they stay orderly and none comes back to work. -/
theorem Attended.change (h : Attended R s) (hhandle : t.keeper.handle = s.keeper.handle)
    (hrun : t.keeper.running = s.keeper.running)
    (hm : ∀ (i : Nat) m', t.members[i]? = some m' → ∃ m, s.members[i]? = some m ∧
      (Orderly R m → Orderly R m') ∧ (m.running = false → m'.running = false)) :
    Attended R t where
  orderly := by
    intro i m' hm'
    obtain ⟨m, hi, horderly, _⟩ := hm i m' hm'
    exact horderly (h.orderly i m hi)
  outlived := by
    intro hstopped i m' hm'
    obtain ⟨m, hi, _, hstays⟩ := hm i m' hm'
    exact hstays (h.outlived (hrun ▸ hstopped) i m hi)
  kept := by
    intro hc
    rw [hhandle, hrun]
    exact h.kept hc

theorem Attended.onMember (h : Attended R s) {i : Nat} {f : Member → Member}
    (hf : ∀ m, s.members[i]? = some m → (Orderly R m → Orderly R (f m)) ∧
      (m.running = false → (f m).running = false)) : Attended R (s.onMember i f) := by
  refine h.change rfl rfl ?_
  intro j m' hm'
  rcases onMember_cases hm' with ⟨rfl, m, hm, rfl⟩ | ⟨_, hm'⟩
  · exact ⟨m, hm, hf m hm⟩
  · exact ⟨m', hm', fun h => h, fun h => h⟩

/-- Nothing about the store but its handle and whether it runs matters here. -/
theorem Attended.keeper (h : Attended R s) (hhandle : t.keeper.handle = s.keeper.handle)
    (hrun : t.keeper.running = s.keeper.running) (hm : t.members = s.members) : Attended R t :=
  h.change hhandle hrun fun _ m hi => ⟨m, hm ▸ hi, fun h => h, fun h => h⟩

theorem Attended.tell (h : Attended R s) (fates : List (Requester × Fate)) :
    Attended R (s.tell fates) := by
  refine h.change (by rw [keeper_tell]) (by rw [keeper_tell]) ?_
  intro i m' hm'
  rw [members_tell] at hm'
  obtain ⟨m, hm, rfl⟩ := Option.map_eq_some_iff.mp hm'
  refine ⟨m, hm, ?_, fun hstopped => hstopped⟩
  rintro ⟨hidle, hstaffed⟩
  exact ⟨fun hstopped => by simp [Member.hear, hidle hstopped], hstaffed⟩

theorem attended_begin (h : Attended R s) {i : Nat} {e : Event}
    (hbegin : s.begin i = some (t, e)) : Attended R t := by
  obtain ⟨m, job, rest, cache, hm, hrun, _, _, hcases⟩ := begin_cases hbegin
  -- every way to begin leaves the member running
  have keep : ∀ m', m'.handle = m.handle → m'.running = m.running →
      Attended R (s.onMember i fun _ => m') := by
    intro m' hhandle hrun'
    refine h.onMember fun n hn => ?_
    obtain rfl : m = n := Option.some.inj (hm.symm.trans hn)
    refine ⟨fun horderly => ⟨?_, ?_⟩, ?_⟩
    · rw [hrun', hrun]
      simp
    · rw [hhandle, hrun']
      exact horderly.2
    · rw [hrun]
      simp
  obtain ⟨r, _, rfl, _⟩ | ⟨_, _, rfl, _⟩ | ⟨_, _, last, r, _, rfl, _⟩ := hcases
  · exact (keep (m.take cache rest) rfl rfl).keeper rfl rfl rfl
  · exact (keep { m.take cache rest with work := some ⟨job, .empty⟩ } rfl rfl).keeper rfl rfl rfl
  · exact (keep { m.take last rest with work := none } rfl rfl).keeper rfl rfl rfl

/-- The store retires only when all its members have stopped. -/
theorem attended_retire (h : Attended R s) {e : Event} (hretire : s.retire = some (t, e)) :
    Attended R t := by
  obtain ⟨_, _, hreaches, rfl, _⟩ := retire_cases hretire
  simp only [reachesStore, Bool.or_eq_false_iff, List.any_eq_false] at hreaches
  have hdone := (h.tell (s.keeper.store.waiters.toList.map fun w => (w.2, .discarded)))
  rw [← dropWaiters_eq_tell] at hdone
  refine ⟨hdone.orderly, ?_, ?_⟩
  · intro _ i m hi
    change s.dropWaiters.members[i]? = some m at hi
    rw [dropWaiters_eq_tell, members_tell] at hi
    obtain ⟨n, hn, rfl⟩ := Option.map_eq_some_iff.mp hi
    simpa [Member.hear] using hreaches.1.2 n (List.mem_of_getElem? hn)
  · intro hc
    simp [(h.kept hc).1] at hreaches

theorem attended_fire (h : Attended R s) {m : Move} {e : Event} (hfire : s.fire m = some (t, e)) :
    Attended R t := by
  cases m with
  | serve =>
    obtain ⟨_, rest, ⟨r, _, rfl, _⟩ | ⟨c, _, rfl, _⟩⟩ := serve_cases hfire
    · exact Attended.tell (h.keeper (t := s.stored rest _) rfl rfl rfl) _
    · exact h.keeper rfl rfl rfl
  | begin i => exact attended_begin h hfire
  | resume i =>
    obtain ⟨m, job, slot, answer, cache, r, hm, _, _, _, rfl, _⟩ := resume_cases hfire
    refine Attended.keeper (h.onMember (f := fun _ => { m with cache, work := none }) ?_)
      rfl rfl rfl
    intro n hn
    obtain rfl : m = n := Option.some.inj (hm.symm.trans hn)
    exact ⟨fun horderly => ⟨fun _ => rfl, horderly.2⟩, fun hstopped => hstopped⟩
  | leave i =>
    obtain ⟨m, hm, _, _, _, hreaches, rfl, _⟩ := leave_cases hfire
    refine h.onMember fun n hn => ?_
    obtain rfl : m = n := Option.some.inj (hm.symm.trans hn)
    refine ⟨fun horderly => ⟨fun _ => rfl, fun hstops => ?_⟩, fun _ => rfl⟩
    simp [reaches, (horderly.2 hstops).1] at hreaches
  | retire => exact attended_retire h hfire
  | finish id =>
    obtain ⟨_, _, _, _, rfl, _⟩ := finish_cases hfire
    exact h.keeper rfl rfl rfl

/-- A call changes nothing about a member but its inbox. -/
theorem attended_call (h : Attended R s) {target : Target} {k : Key}
    (hcall : s.call target k = some t) : Attended R t := by
  cases target with
  | client i a manner =>
    obtain ⟨m, hm, _, ⟨_, rfl⟩ | ⟨_, rfl⟩⟩ := call_client_cases hcall
    · exact Attended.onMember (h.keeper (t := s.enter _ _ _) rfl rfl rfl)
        fun m _ => ⟨fun h => h, fun h => h⟩
    · exact h.keeper rfl rfl rfl
  | store op =>
    obtain ⟨_, ⟨_, rfl⟩ | ⟨_, rfl⟩⟩ := call_store_cases hcall
    · exact h.keeper rfl rfl rfl
    · exact h.keeper rfl rfl rfl
  | snapshot =>
    obtain ⟨_, ⟨_, rfl⟩ | ⟨_, rfl⟩⟩ := call_snapshot_cases hcall
    · exact h.keeper rfl rfl rfl
    · exact h.keeper rfl rfl rfl

theorem attended_perform (h : Attended R s) {a : Act} (allowed : R.Allow (.act a))
    (hact : s.perform a = some t) : Attended R t := by
  cases a with
  | call target k => exact attended_call h hact
  | take id =>
    obtain ⟨f, rfl⟩ := take_cases hact
    exact h.keeper rfl rfl rfl
  | wait id =>
    obtain ⟨f, rfl⟩ := wait_cases hact
    exact h.keeper rfl rfl rfl
  | cancel id =>
    obtain rfl := Option.some.inj hact
    obtain heq | ⟨f, ⟨j, heq⟩ | heq⟩ := cancel_cases s id
    · rw [heq]
      exact h
    · rw [heq]
      exact Attended.keeper (h.onMember (i := j)
        (f := fun m => { m with inbox := m.inbox.withdraw fun job => job.call == id })
        fun m _ => ⟨fun h => h, fun h => h⟩) rfl rfl rfl
    · rw [heq]
      exact h.keeper rfl rfl rfl
  | closeClient i =>
    obtain rfl := closeClient_cases hact
    exact h.onMember fun m _ => ⟨fun horderly => ⟨horderly.1, fun hstops => absurd allowed hstops⟩,
      fun hstopped => hstopped⟩
  | closeStore =>
    obtain rfl := Option.some.inj hact
    exact ⟨h.orderly, h.outlived, fun hcloses => absurd allowed hcloses⟩
  | killClient i =>
    obtain ⟨m, hm, ⟨_, hkeeper, hmembers⟩ | ⟨_, rfl⟩⟩ := killClient_cases hact
    · have hhalt : Attended R (s.onMember i .halt) := h.onMember fun m _ =>
        ⟨fun _ => ⟨fun _ => rfl, fun hstops => absurd allowed hstops⟩, fun _ => rfl⟩
      have hsame : t.keeper.handle = s.keeper.handle ∧ t.keeper.running = s.keeper.running := by
        rw [hkeeper]
        exact ⟨rfl, rfl⟩
      exact hhalt.keeper hsame.1 hsame.2 hmembers
    · exact h
  | killStore => exact absurd allowed id

theorem attended_step (h : Attended R s) {l : Label} {es : List Event} (allowed : R.Allow l)
    (hstep : s.step l = some (t, es)) : Attended R t := by
  cases l with
  | act a => exact attended_perform h allowed (step_act hstep).1
  | move m =>
    obtain ⟨e, hfire, _⟩ := step_move hstep
    exact attended_fire h hfire

theorem attended_run {labels : List Label} {es : List Event}
    (allowed : ∀ l ∈ labels, R.Allow l) (h : Attended R s) (hrun : s.run labels = some (t, es)) :
    Attended R t :=
  run_induction (P := fun u _ => Attended R u)
    (fun _ _ _ _ _ hl hu hstep => attended_step hu hl hstep) allowed [] h hrun

end Cluster

end Custody
