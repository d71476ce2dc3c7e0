import Custody.Proofs.Scene.Basic

/-!
# A cluster plays its scene

As long as the store runs, every move of a cluster and every act that the rules allow is a step of
the scene. What holds of all scenes that can be reached holds of all clusters.
-/

namespace Custody

namespace Cluster

variable {R : Rules} {s t : Cluster}

theorem scene_start (setup : Setup) :
    (start setup).scene = ⟨{}, [], (start setup).hand⟩ := rfl

/-- Everybody starts with nothing in hand. -/
theorem hand_start {setup : Setup} {i : Nat} {h : Hand} (hi : (start setup).hand i = some h) :
    h.cache = ∅ ∧ h.work = none := by
  obtain ⟨m, hm, _, rfl⟩ := hand_eq_some_iff.mp hi
  simp only [start, List.getElem?_map, Option.map_eq_some_iff] at hm
  obtain ⟨client, _, rfl⟩ := hm
  exact ⟨rfl, rfl⟩

/-- A step of the scene is matched by any cluster that shows the scene it leads to. -/
theorem step_to {a : Scene} {es : List Event} (hstep : Scene.Step R s.scene es a)
    (hstore : t.keeper.store = a.store) (hqueue : t.requests = a.queue) (hhand : t.hand = a.hand) :
    Scene.Step R s.scene es t.scene := by
  rw [scene_eq hstore hqueue hhand]
  exact hstep

/-- What nobody outside the calls can see. -/
theorem step_aside {es : List Event} (haside : ∀ e ∈ es, e.Aside)
    (hstore : t.keeper.store = s.keeper.store) (hqueue : t.requests = s.requests)
    (hhand : t.hand = s.hand) : Scene.Step R s.scene es t.scene :=
  step_to (.aside es haside) hstore hqueue hhand

theorem hand_answered {i : Nat} {m n : Member} {job : Job} {r : ClientReply}
    (hm : s.members[i]? = some m) (hrun : n.running = true) :
    ((s.onMember i fun _ => n).answer job r).hand =
      Function.update s.hand i (some ⟨n.cache, n.work⟩) := by
  rw [hand_of_members (members_answer _ job r), hand_onMember, hm]
  simp [Member.hand?, hrun]

theorem scene_serve {e : Event} (h : s.serve = some (t, e)) : Scene.Step R s.scene [e] t.scene := by
  obtain ⟨_, rest, ⟨r, hentries, rfl, rfl⟩ | ⟨c, hentries, rfl, rfl⟩⟩ := serve_cases h
  · have hqueue : s.scene.queue = r :: rest.filterMap Command.request? := by
      simp [scene, requests, hentries, Command.request?]
    refine step_to (.serve s.isPresent r _ hqueue s.isPresent_client) ?_ ?_ ?_
    · rw [keeper_tell]
      rfl
    · rw [requests, keeper_tell]
      rfl
    · funext i
      rw [hand_tell]
      rfl
  · refine step_aside (by simp [Event.Aside]) rfl ?_ rfl
    simp only [requests, hentries]
    rfl

theorem scene_begin {i : Nat} {e : Event} (h : s.begin i = some (t, e))
    (hrun : t.keeper.running = true) : Scene.Step R s.scene [e] t.scene := by
  obtain ⟨m, job, rest, cache, hm, hmrun, hwork, _, hcases⟩ := begin_cases h
  have hhand : s.scene.hand i = some ⟨m.cache, none⟩ :=
    hand_eq_some_iff.mpr ⟨m, hm, hmrun, by rw [hwork]⟩
  obtain ⟨r, hstart, rfl, rfl⟩ | ⟨hstart, _, rfl, rfl⟩ | ⟨_, hstopped, _, _, _, rfl, _⟩ := hcases
  · refine step_to (.settle i _ job cache r hhand rfl hstart) rfl rfl ?_
    rw [hand_answered (n := m.take cache rest) hm hmrun, Member.take, hwork]
    rfl
  · refine step_to (.ask i _ job cache hhand rfl hstart) rfl ?_ ?_
    · rw [requests, entries_send, List.filterMap_append]
      rfl
    · rw [hand_of_members (members_send _ _), hand_onMember, hm]
      simp [Member.hand?, Member.take, hmrun, Scene.sent, Scene.handed, scene]
  · exact absurd hrun (by simp [hstopped])

theorem scene_resume {i : Nat} {e : Event} (attended : Attended R s)
    (h : s.resume i = some (t, e)) : Scene.Step R s.scene [e] t.scene := by
  obtain ⟨m, job, slot, answer, cache, r, hm, hwork, hanswer, hfinish, rfl, rfl⟩ :=
    resume_cases h
  have hmrun : m.running = true := by
    by_contra hstopped
    have hidle := (attended.orderly i m hm).1 (by simpa using hstopped)
    rw [hwork] at hidle
    cases hidle
  have hhand : s.scene.hand i = some ⟨m.cache, m.work⟩ := hand_of_member hm hmrun
  refine step_to (.finish i _ job slot answer cache r hhand hwork hanswer hfinish) rfl rfl ?_
  rw [hand_answered (n := { m with cache, work := none }) hm hmrun]
  rfl

theorem scene_leave {i : Nat} {e : Event} (attended : Attended R s)
    (h : s.leave i = some (t, e)) : Scene.Step R s.scene [e] t.scene := by
  obtain ⟨m, hm, _, _, _, hreaches, rfl, rfl⟩ := leave_cases h
  have hstops : R.stops := by
    by_contra hstops
    have hhandle := ((attended.orderly i m hm).2 hstops).1
    simp [reaches, hhandle] at hreaches
  refine step_to (.stop i s.requests _ hstops (List.Sublist.refl _) (by simp [Event.Aside]))
    rfl rfl ?_
  rw [hand_onMember, hm]
  rfl

theorem scene_fire {m : Move} {e : Event} (attended : Attended R s)
    (hfire : s.fire m = some (t, e)) (hrun : t.keeper.running = true) :
    s.keeper.running = true ∧ Scene.Step R s.scene [e] t.scene := by
  cases m with
  | serve => exact ⟨(serve_cases hfire).1, scene_serve hfire⟩
  | begin i =>
    refine ⟨?_, scene_begin hfire hrun⟩
    obtain ⟨_, _, _, _, _, _, _, _, ⟨_, _, rfl, _⟩ | ⟨_, hkeeper, _⟩ | ⟨_, _, _, _, _, rfl, _⟩⟩ :=
      begin_cases hfire
    · exact hrun
    · exact hkeeper
    · exact hrun
  | resume i =>
    refine ⟨?_, scene_resume attended hfire⟩
    obtain ⟨_, _, _, _, _, _, _, _, _, _, rfl, _⟩ := resume_cases hfire
    exact hrun
  | leave i =>
    refine ⟨?_, scene_leave attended hfire⟩
    obtain ⟨_, _, _, _, _, _, rfl, _⟩ := leave_cases hfire
    exact hrun
  | retire =>
    obtain ⟨_, _, _, rfl, _⟩ := retire_cases hfire
    exact absurd hrun (by simp [Keeper.halt])
  | finish id =>
    obtain ⟨_, _, _, _, rfl, rfl⟩ := finish_cases hfire
    exact ⟨hrun, step_aside (by simp [Event.Aside]) rfl rfl rfl⟩

/-- Once the store has stopped, nobody is left to ask it or to answer a caller. -/
theorem aside_of_stopped {m : Move} {e : Event} (attended : Attended R s)
    (hfire : s.fire m = some (t, e)) (hstopped : t.keeper.running = false) : e.Aside := by
  cases m with
  | serve =>
    obtain ⟨hrun, _, ⟨_, _, rfl, _⟩ | ⟨_, _, rfl, _⟩⟩ := serve_cases hfire
    · rw [keeper_tell] at hstopped
      exact absurd hrun (ne_true_of_eq_false hstopped)
    · exact absurd hrun (ne_true_of_eq_false hstopped)
  | begin i =>
    obtain ⟨m, _, _, _, hm, hmrun, _, _, hcases⟩ := begin_cases hfire
    have hrun : s.keeper.running = false := by
      obtain ⟨_, _, rfl, _⟩ | ⟨_, _, rfl, _⟩ | ⟨_, _, _, _, _, rfl, _⟩ := hcases
      · exact hstopped
      · exact hstopped
      · exact hstopped
    exact absurd hmrun (ne_true_of_eq_false (attended.outlived hrun i m hm))
  | resume i =>
    obtain ⟨m, _, _, _, _, _, hm, hwork, _, _, rfl, _⟩ := resume_cases hfire
    have hidle := (attended.orderly i m hm).1 (attended.outlived hstopped i m hm)
    rw [hwork] at hidle
    cases hidle
  | leave i =>
    obtain ⟨_, _, _, _, _, _, _, rfl⟩ := leave_cases hfire
    exact trivial
  | retire =>
    obtain ⟨_, _, _, _, rfl⟩ := retire_cases hfire
    exact trivial
  | finish id =>
    obtain ⟨_, _, _, _, _, rfl⟩ := finish_cases hfire
    exact trivial

/-! ## Acts -/

theorem scene_call {target : Target} {k : Key} (allowed : R.Allow (.act (.call target k)))
    (h : s.call target k = some t) (hrun : t.keeper.running = true) :
    s.keeper.running = true ∧ Scene.Step R s.scene [] t.scene := by
  cases target with
  | client i a manner =>
    obtain ⟨m, _, _, ⟨_, rfl⟩ | ⟨_, rfl⟩⟩ := call_client_cases h
    · refine ⟨hrun, step_aside (by simp) rfl rfl ?_⟩
      exact hand_onMember_of_same fun m => rfl
    · exact ⟨hrun, step_aside (by simp) rfl rfl rfl⟩
  | store op =>
    obtain ⟨_, ⟨hkeeper, rfl⟩ | ⟨_, rfl⟩⟩ := call_store_cases h
    · refine ⟨hkeeper, ?_⟩
      refine step_to (.post ⟨op, k, .caller s.calls.length⟩ _ rfl allowed) rfl ?_ rfl
      rw [requests, entries_send, List.filterMap_append]
      rfl
    · exact ⟨hrun, step_aside (by simp) rfl rfl rfl⟩
  | snapshot =>
    obtain ⟨_, ⟨hkeeper, rfl⟩ | ⟨_, rfl⟩⟩ := call_snapshot_cases h
    · refine ⟨hkeeper, step_aside (by simp) rfl ?_ rfl⟩
      rw [requests, entries_send, List.filterMap_append]
      exact List.append_nil _
    · exact ⟨hrun, step_aside (by simp) rfl rfl rfl⟩

theorem scene_cancel (s : Cluster) (id : Nat) : Scene.Step R s.scene [] (s.cancel id).scene := by
  obtain heq | ⟨f, ⟨j, heq⟩ | heq⟩ := cancel_cases s id
  · rw [heq]
    exact .aside [] (by simp)
  · rw [heq]
    refine step_aside (by simp) rfl rfl ?_
    rw [hand_of_members (members_onCall _ _ _)]
    exact hand_onMember_of_same fun m => rfl
  · rw [heq]
    obtain ⟨hsub, hkeep⟩ := s.requests_withdraw (.caller id)
    refine step_to (.withdraw _ hsub fun r hr i hwho => hkeep r hr ?_) rfl rfl rfl
    rw [hwho]
    simp

theorem scene_killClient {i : Nat} (stops : R.stops) (h : s.killClient i = some t) :
    Scene.Step R s.scene [] t.scene := by
  obtain ⟨m, hm, ⟨_, hkeeper, hmembers⟩ | ⟨_, rfl⟩⟩ := killClient_cases h
  · refine step_to (.stop i _ _ stops (s.requests_withdraw (.client i)).1 (by simp)) ?_ ?_ ?_
    · rw [hkeeper]
      rfl
    · rw [requests, hkeeper]
      rfl
    · rw [hand_of_members hmembers, hand_onMember, hm]
      rfl
  · exact .aside [] (by simp)

theorem scene_perform {a : Act} (allowed : R.Allow (.act a)) (hact : s.perform a = some t)
    (hrun : t.keeper.running = true) :
    s.keeper.running = true ∧ Scene.Step R s.scene [] t.scene := by
  cases a with
  | call target k => exact scene_call allowed hact hrun
  | take id =>
    obtain ⟨f, rfl⟩ := take_cases hact
    exact ⟨hrun, step_aside (by simp) rfl rfl rfl⟩
  | wait id =>
    obtain ⟨f, rfl⟩ := wait_cases hact
    exact ⟨hrun, step_aside (by simp) rfl rfl rfl⟩
  | cancel id =>
    obtain rfl := Option.some.inj hact
    refine ⟨?_, scene_cancel s id⟩
    obtain heq | ⟨f, ⟨j, heq⟩ | heq⟩ := cancel_cases s id
    · rw [heq] at hrun
      exact hrun
    · rw [heq] at hrun
      exact hrun
    · rw [heq] at hrun
      exact hrun
  | closeClient i =>
    obtain rfl := closeClient_cases hact
    exact ⟨hrun, step_aside (by simp) rfl rfl (hand_onMember_of_same fun m => rfl)⟩
  | closeStore =>
    obtain rfl := Option.some.inj hact
    exact ⟨hrun, step_aside (by simp) rfl rfl rfl⟩
  | killClient i =>
    refine ⟨?_, scene_killClient allowed hact⟩
    obtain ⟨_, _, ⟨_, hkeeper, _⟩ | ⟨_, rfl⟩⟩ := killClient_cases hact
    · rw [hkeeper] at hrun
      exact hrun
    · exact hrun
  | killStore => exact absurd allowed id

theorem scene_step {l : Label} {es : List Event} (attended : Attended R s) (allowed : R.Allow l)
    (h : s.step l = some (t, es)) (hrun : t.keeper.running = true) :
    s.keeper.running = true ∧ Scene.Step R s.scene es t.scene := by
  cases l with
  | act a =>
    obtain ⟨hact, rfl⟩ := step_act h
    exact scene_perform allowed hact hrun
  | move m =>
    obtain ⟨e, hfire, rfl⟩ := step_move h
    exact scene_fire attended hfire hrun

/-- What every scene keeps, every cluster keeps while its store runs. -/
theorem scene_induction {P : Scene → List Event → Prop} {setup : Setup}
    (start : P (Cluster.start setup).scene [])
    (keeps : ∀ a past now b, P a past → Scene.Step R a now b → P b (past ++ now))
    {labels : List Label} (allowed : ∀ l ∈ labels, R.Allow l) {es : List Event}
    (h : (Cluster.start setup).run labels = some (s, es)) (hrun : s.keeper.running = true) :
    P s.scene es := by
  have hplay := run_induction (A := R.Allow)
    (P := fun u past => Attended R u ∧ (u.keeper.running = true → P u.scene past))
    ?_ allowed [] ⟨attended_start setup, fun _ => start⟩ h
  · exact hplay.2 hrun
  · rintro u past l v now hl ⟨attended, hscene⟩ hstep
    refine ⟨attended_step attended hl hstep, fun hv => ?_⟩
    obtain ⟨hu, hplayed⟩ := scene_step attended hl hstep hv
    exact keeps _ _ _ _ (hscene hu) hplayed

end Cluster

end Custody
