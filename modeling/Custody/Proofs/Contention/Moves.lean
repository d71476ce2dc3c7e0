import Custody.Contention
import Custody.Proofs.Cluster.Load
import Custody.Proofs.Cluster.Rules
import Custody.Proofs.Coherence.Lossless

/-!
# What a contention can do

A worker makes a call, or takes note of one that has ended. Each move lowers the load, and what the
workers and the actors do together is a run of their cluster in which only clients are called.
-/

namespace Custody

theorem total_set {α : Type} {f : α → Nat} {l : List α} {i : Nat} {a : α} (b : α)
    (h : l[i]? = some a) : total f (l.set i b) + f a = total f l + f b := by
  have hset : l.modify i (fun _ => b) = l.set i b := by
    have : Inhabited α := ⟨b⟩
    exact List.modify_eq_set _ i l
  rw [← hset]
  exact total_modify h

namespace Contention

variable {s t : Contention} {j : Nat}

theorem fire_actor {m : Custody.Move} (h : s.fire (.actor m) = some t) :
    ∃ cluster e, s.cluster.fire m = some (cluster, e) ∧ t = { s with cluster } := by
  obtain ⟨⟨cluster, e⟩, hfire, rfl⟩ := Option.map_eq_some_iff.mp h
  exact ⟨cluster, e, hfire, rfl⟩

/-- Worker `j` makes a call and goes on as `w`. -/
def called (s : Contention) (j : Nat) (cluster : Cluster) (w : Worker) : Contention :=
  { s with cluster, workers := s.workers.set j w }

theorem work_cases (h : s.work j = some t) : ∃ w, s.workers[j]? = some w ∧
    ((∃ n cluster, w.stage = .resting ∧ w.rounds = n + 1 ∧
        s.cluster.call (.client j .get .attached) s.key = some cluster ∧
        t = s.called j cluster { w with rounds := n, stage := .getting s.cluster.calls.length }) ∨
      (∃ id r cluster, w.stage = .getting id ∧
        s.cluster.ended? id = some (.answered (.client r)) ∧
        s.cluster.call (.client j (.put (r.value + w.delta)) .attached) s.key = some cluster ∧
        t = s.called j cluster { w.got r with stage := .putting s.cluster.calls.length }) ∨
      (∃ id r, w.stage = .putting id ∧ s.cluster.ended? id = some (.answered (.client r)) ∧
        t = s.onWorker j (w.did r)) ∨
      ∃ id o, (w.stage = .getting id ∨ w.stage = .putting id) ∧ s.cluster.ended? id = some o ∧
        (∀ r, o ≠ .answered (.client r)) ∧ t = s.onWorker j w.quit) := by
  obtain ⟨w, hw, h⟩ := Option.bind_eq_some_iff.mp h
  refine ⟨w, hw, ?_⟩
  cases hstage : w.stage with
  | resting =>
    simp only [hstage] at h
    split at h
    · cases h
    · rename_i n hrounds
      obtain ⟨u, hu, h⟩ := Option.bind_eq_some_iff.mp h
      obtain ⟨cluster, hcall, hu⟩ := Option.bind_eq_some_iff.mp hu
      obtain rfl := Option.some.inj hu
      obtain rfl := Option.some.inj h
      exact Or.inl ⟨n, cluster, rfl, hrounds, hcall, rfl⟩
  | getting id =>
    simp only [hstage] at h
    obtain ⟨o, ho, h⟩ := Option.bind_eq_some_iff.mp h
    split at h
    · rename_i r
      obtain ⟨u, hu, h⟩ := Option.bind_eq_some_iff.mp h
      obtain ⟨cluster, hcall, hu⟩ := Option.bind_eq_some_iff.mp hu
      obtain rfl := Option.some.inj hu
      obtain rfl := Option.some.inj h
      exact Or.inr (Or.inl ⟨id, r, cluster, rfl, ho, hcall, rfl⟩)
    · rename_i hfailed
      obtain rfl := Option.some.inj h
      exact Or.inr (Or.inr (Or.inr ⟨id, o, Or.inl rfl, ho, fun r hr => hfailed r hr, rfl⟩))
  | putting id =>
    simp only [hstage] at h
    obtain ⟨o, ho, h⟩ := Option.bind_eq_some_iff.mp h
    split at h
    · rename_i r
      obtain rfl := Option.some.inj h
      exact Or.inr (Or.inr (Or.inl ⟨id, r, rfl, ho, rfl⟩))
    · rename_i hfailed
      obtain rfl := Option.some.inj h
      exact Or.inr (Or.inr (Or.inr ⟨id, o, Or.inr rfl, ho, fun r hr => hfailed r hr, rfl⟩))

/-! ## The load -/

theorem load_called {w : Worker} (cluster : Cluster) (w' : Worker) (hw : s.workers[j]? = some w) :
    (s.called j cluster w').load + s.cluster.load + w.load = s.load + cluster.load + w'.load := by
  have htotal := total_set (f := Worker.load) w' hw
  simp only [load, called]
  omega

theorem load_onWorker {w : Worker} (w' : Worker) (hw : s.workers[j]? = some w) :
    (s.onWorker j w').load + w.load = s.load + w'.load := by
  have htotal := total_set (f := Worker.load) w' hw
  simp only [load, onWorker]
  omega

theorem load_fire {m : Move} (h : s.fire m = some t) : t.load < s.load := by
  cases m with
  | actor m =>
    obtain ⟨cluster, e, hfire, rfl⟩ := fire_actor h
    have := Cluster.load_fire hfire
    simp only [load]
    omega
  | work j =>
    obtain ⟨w, hw, ⟨n, cluster, hstage, hrounds, hcall, rfl⟩ |
      ⟨id, r, cluster, hstage, _, hcall, rfl⟩ | ⟨id, r, hstage, _, rfl⟩ |
      ⟨id, o, hstage, _, _, rfl⟩⟩ := work_cases h
    · have hbefore : w.load = 11 * (n + 1) := by simp [Worker.load, hstage, hrounds]
      have hload := load_called cluster
        { w with rounds := n, stage := .getting s.cluster.calls.length } hw
      have hnow : Worker.load { w with rounds := n, stage := .getting s.cluster.calls.length } =
          11 * n + 6 := rfl
      have := Cluster.load_call_client hcall
      rw [hbefore, hnow] at hload
      omega
    · have hbefore : w.load = 11 * w.rounds + 6 := by simp only [Worker.load, hstage]
      have hload := load_called cluster
        { w.got r with stage := .putting s.cluster.calls.length } hw
      have hnow : Worker.load { w.got r with stage := .putting s.cluster.calls.length } =
          11 * w.rounds + 1 := rfl
      have := Cluster.load_call_client hcall
      rw [hbefore, hnow] at hload
      omega
    · have hbefore : w.load = 11 * w.rounds + 1 := by simp only [Worker.load, hstage]
      have hload := load_onWorker (w.did r) hw
      have hnow : (w.did r).load = 11 * w.rounds := rfl
      rw [hbefore, hnow] at hload
      omega
    · have hbefore : 0 < w.load := by
        rcases hstage with hstage | hstage
        · simp only [Worker.load, hstage]
          omega
        · simp only [Worker.load, hstage]
          omega
      have hload := load_onWorker w.quit hw
      have hnow : w.quit.load = 0 := rfl
      rw [hnow] at hload
      omega

/-- In a contention at rest nothing moves. -/
theorem fire_of_atRest (h : s.atRest = true) (m : Move) : s.fire m = none := by
  by_contra hmoves
  obtain ⟨t, hfire⟩ := Option.ne_none_iff_exists'.mp hmoves
  have hm : m ∈ s.moves := by
    cases m with
    | actor m =>
      obtain ⟨cluster, e, hactor, _⟩ := fire_actor hfire
      exact List.mem_append_left _ (List.mem_map_of_mem (Cluster.mem_moves hactor))
    | work j =>
      obtain ⟨w, hw, _⟩ := work_cases hfire
      obtain ⟨hj, _⟩ := List.getElem?_eq_some_iff.mp hw
      exact List.mem_append_right _ (List.mem_map_of_mem (List.mem_range.mpr hj))
  have hnone := List.all_eq_true.mp h m hm
  rw [hfire] at hnone
  cases hnone

theorem atRest_iff : s.atRest = true ↔ ∀ m, s.fire m = none := by
  constructor
  · exact fire_of_atRest
  · intro hnone
    exact List.all_eq_true.mpr fun m _ => Option.isNone_iff_eq_none.mpr (hnone m)

theorem run_cons {m : Move} {rest : List Move} (h : s.run (m :: rest) = some t) :
    ∃ u, s.fire m = some u ∧ u.run rest = some t :=
  Option.bind_eq_some_iff.mp h

/-- Whatever moves are made, there are no more of them than the load allows. -/
theorem length_add_load_le {moves : List Move} (h : s.run moves = some t) :
    moves.length + t.load ≤ s.load := by
  induction moves generalizing s with
  | nil =>
    obtain rfl := Option.some.inj h
    simp
  | cons m rest ih =>
    obtain ⟨u, hfire, hrest⟩ := run_cons h
    have hless := load_fire hfire
    have hlast := ih hrest
    rw [List.length_cons]
    omega

theorem run_induction {P : Contention → Prop}
    (keeps : ∀ s m t, P s → s.fire m = some t → P t) {moves : List Move} (start : P s)
    (h : s.run moves = some t) : P t := by
  induction moves generalizing s with
  | nil =>
    obtain rfl := Option.some.inj h
    exact start
  | cons m rest ih =>
    obtain ⟨u, hfire, hrest⟩ := run_cons h
    exact ih (keeps s m u start hfire) hrest

/-! ## Settling -/

/-- With as many steps as the load allows, a contention comes to rest. -/
theorem run_settleIn {n : Nat} (hload : s.load ≤ n) :
    ∃ moves, s.run moves = some (settleIn n s) ∧ (settleIn n s).atRest = true := by
  induction n generalizing s with
  | zero =>
    have hrest : s.atRest = true := by
      refine atRest_iff.mpr fun m => ?_
      by_contra hmoves
      obtain ⟨t, hfire⟩ := Option.ne_none_iff_exists'.mp hmoves
      have hless := load_fire hfire
      omega
    exact ⟨[], rfl, hrest⟩
  | succ n ih =>
    rw [settleIn]
    cases hadvance : s.advance with
    | none =>
      refine ⟨[], rfl, List.all_eq_true.mpr fun m hm => ?_⟩
      rw [List.findSome?_eq_none_iff.mp hadvance m hm]
      rfl
    | some t =>
      obtain ⟨m, _, hfire⟩ := List.exists_of_findSome?_eq_some hadvance
      have hless := load_fire hfire
      obtain ⟨rest, hrun, hrest⟩ := ih (s := t) (by omega)
      exact ⟨m :: rest, Option.bind_eq_some_iff.mpr ⟨t, hfire, hrun⟩, hrest⟩

end Contention

end Custody
