import Custody.Proofs.Cluster.Load

/-!
# Coming to rest

Every move lowers the load, so a cluster that is left to itself comes to rest, whichever moves it
makes. At rest a store that runs has an empty inbox, and a member has nothing that it could begin or
finish.
-/

namespace Custody

namespace Cluster

variable {s t : Cluster} {es : List Event} {i : Nat} {m : Member}

/-! ## What is stuck -/

theorem entries_of_serve (hrun : s.keeper.running = true) (hserve : s.serve = none) :
    s.keeper.inbox.entries = [] := by
  unfold serve at hserve
  split at hserve
  · rename_i command rest _ _
    cases command <;> cases hserve
  · rename_i hstuck
    cases hentries : s.keeper.inbox.entries with
    | nil => rfl
    | cons command rest => exact absurd hentries (hstuck command rest hrun)

theorem entries_of_begin (hm : s.members[i]? = some m) (hrun : m.running = true)
    (hidle : m.work = none) (hbegin : s.begin i = none) : m.inbox.entries = [] := by
  cases hentries : m.inbox.entries with
  | nil => rfl
  | cons job rest =>
    rw [begin, hm] at hbegin
    simp only [Option.bind_eq_bind, Option.bind_some, hrun, hidle, hentries] at hbegin
    split at hbegin
    · cases hbegin
    · split at hbegin
      · cases hbegin
      · cases hbegin

theorem slot_of_resume {job : Job} {slot : Slot StoreReply} (hm : s.members[i]? = some m)
    (hwork : m.work = some ⟨job, slot⟩) (hresume : s.resume i = none) :
    slot = .empty ∨ slot = .spent := by
  rw [resume, hm] at hresume
  simp only [Option.bind_eq_bind, Option.bind_some, hwork] at hresume
  cases slot with
  | empty => exact Or.inl rfl
  | full r => cases hresume
  | dropped => cases hresume
  | spent => exact Or.inr rfl

/-! ## Rest -/

theorem fire_of_atRest (hrest : s.atRest = true) (mv : Move) : s.fire mv = none := by
  cases hfire : s.fire mv with
  | none => rfl
  | some u =>
    have hnone := List.all_eq_true.mp hrest mv (mem_moves (t := u.1) (e := u.2) hfire)
    simp [hfire] at hnone

theorem atRest_iff : s.atRest = true ↔ ∀ mv, s.fire mv = none := by
  constructor
  · exact fire_of_atRest
  · intro hnone
    apply List.all_eq_true.mpr
    intro mv _
    rw [hnone mv]
    rfl

/-- Nobody who waits has heard anything. -/
theorem empty_of_atRest (hrest : s.atRest = true) {c : Nat} {call : Call} {slot : Slot Answer}
    (hcall : s.calls[c]? = some call) (hstatus : call.status = .pending false slot) :
    slot = .empty := by
  have hfinish : s.finish c = none := fire_of_atRest hrest (.finish c)
  cases slot with
  | empty => rfl
  | _ => simp [finish, hcall, outcome?, hstatus] at hfinish

/-- With as many steps as the load allows, a cluster comes to rest. -/
theorem run_settleIn {n : Nat} (hload : s.load ≤ n) :
    ∃ (moves : List Move) (es : List Event), s.run (moves.map .move) = some (settleIn n s, es) ∧
      (settleIn n s).atRest = true := by
  induction n generalizing s with
  | zero =>
    have hrest : s.atRest = true := by
      rw [atRest_iff]
      intro mv
      by_contra hmoves
      obtain ⟨⟨t, e⟩, hfire⟩ := Option.ne_none_iff_exists'.mp hmoves
      have hless := load_fire hfire
      omega
    exact ⟨[], [], rfl, hrest⟩
  | succ n ih =>
    rw [settleIn]
    cases hadvance : s.advance with
    | none =>
      refine ⟨[], [], rfl, List.all_eq_true.mpr fun mv hmv => ?_⟩
      have hnone := List.findSome?_eq_none_iff.mp hadvance mv hmv
      rw [Option.map_eq_none_iff.mp hnone]
      rfl
    | some t =>
      obtain ⟨mv, _, hmv⟩ := List.exists_of_findSome?_eq_some hadvance
      obtain ⟨⟨u, e⟩, hfire, rfl⟩ := Option.map_eq_some_iff.mp hmv
      have hless := load_fire hfire
      obtain ⟨rest, later, hrun, hrest⟩ := ih (s := u) (by omega)
      refine ⟨mv :: rest, e :: later, ?_, hrest⟩
      rw [List.map_cons, run]
      simp [step, hfire, hrun]

theorem run_settle (s : Cluster) :
    ∃ (moves : List Move) (es : List Event), s.run (moves.map .move) = some (s.settle, es) ∧
      s.settle.atRest = true :=
  run_settleIn (Nat.le_refl _)

end Cluster

end Custody
