import Custody.Proofs.Calls.Onward

/-!
# How the store fares

A step of a cluster as the store sees it. Its actor takes the first message of its inbox, or a
message is put at the end, or some that are still outside are taken back, or the actor stops, or its
handle is let go of. This is the one inversion of a step for everything that concerns the store
alone.
-/

namespace Custody

/-- The store has decided on a request, or has been looked at. -/
def Event.byStore : Event → Bool
  | served _ _ => true
  | observed _ _ => true
  | _ => false

namespace Cluster

/-- A message that call `c` or a client sends. -/
def Posts (c : Nat) (command : Command) : Prop :=
  command.sender = .caller c ∨ ∃ i, command.sender = .client i

/-- What a step makes of the store's actor. -/
inductive Tends (s : Cluster) : Label → List Event → Keeper → Prop where
  | kept {l : Label} {es : List Event} (hl : l ≠ .act .closeStore)
      (aside : es.filter Event.byStore = []) : Tends s l es s.keeper
  | closed : Tends s (.act .closeStore) [] { s.keeper with handle := false }
  | sent {l : Label} (command : Command) {es : List Event} (hl : l ≠ .act .closeStore)
      (hposts : Posts s.calls.length command) (aside : es.filter Event.byStore = []) :
      Tends s l es (s.send command).keeper
  | withdrew {l : Label} (who : Requester) (hl : l ≠ .act .closeStore) :
      Tends s l [] (s.withdraw who).keeper
  | decided (r : Request Requester) (rest : List Command) (hrun : s.keeper.running = true)
      (hentries : s.keeper.inbox.entries = .request r :: rest) :
      Tends s (.move .serve) [.served r (s.keeper.store.handle s.isPresent r).2]
        (s.stored rest (s.keeper.store.handle s.isPresent r).1).keeper
  | shown (c : Nat) (rest : List Command) (hrun : s.keeper.running = true)
      (hentries : s.keeper.inbox.entries = .snapshot c :: rest) :
      Tends s (.move .serve) [.observed c s.keeper.store.snapshot]
        (s.stored rest s.keeper.store).keeper
  | stopped {l : Label} {es : List Event} (hl : l ≠ .act .closeStore)
      (aside : es.filter Event.byStore = []) : Tends s l es s.keeper.halt

variable {s t : Cluster} {l : Label} {e : Event} {es : List Event}

theorem tends_of_keeper (hl : l ≠ .act .closeStore) (h : t.keeper = s.keeper)
    (aside : es.filter Event.byStore = []) : s.Tends l es t.keeper := by
  rw [h]
  exact .kept hl aside

theorem tends_fire {mv : Move} (h : s.fire mv = some (t, e)) :
    s.Tends (.move mv) [e] t.keeper := by
  cases mv with
  | serve =>
    obtain ⟨hrun, rest, ⟨r, hentries, rfl, rfl⟩ | ⟨c, hentries, rfl, rfl⟩⟩ := serve_cases h
    · rw [keeper_tell]
      exact .decided r rest hrun hentries
    · exact .shown c rest hrun hentries
  | begin i =>
    obtain ⟨m, job, rest, cache, _, _, _, _, hcases⟩ := begin_cases h
    obtain ⟨r, _, rfl, rfl⟩ | ⟨_, _, rfl, rfl⟩ | ⟨_, _, last, r, _, rfl, rfl⟩ := hcases
    · exact tends_of_keeper nofun rfl rfl
    · exact .sent _ nofun (Or.inr ⟨i, rfl⟩) rfl
    · exact tends_of_keeper nofun rfl rfl
  | resume i =>
    obtain ⟨_, _, _, _, _, _, _, _, _, _, rfl, rfl⟩ := resume_cases h
    exact tends_of_keeper nofun rfl rfl
  | leave i =>
    obtain ⟨_, _, _, _, _, _, rfl, rfl⟩ := leave_cases h
    exact tends_of_keeper nofun rfl rfl
  | retire =>
    obtain ⟨_, _, _, rfl, rfl⟩ := retire_cases h
    exact .stopped nofun rfl
  | finish c =>
    obtain ⟨_, _, _, _, rfl, rfl⟩ := finish_cases h
    exact tends_of_keeper nofun rfl rfl

theorem tends_call {target : Target} {k : Key} (h : s.call target k = some t) :
    s.Tends (.act (.call target k)) [] t.keeper := by
  cases target with
  | client i act manner =>
    obtain ⟨_, _, _, ⟨_, rfl⟩ | ⟨_, rfl⟩⟩ := call_client_cases h
    · exact tends_of_keeper nofun rfl rfl
    · exact tends_of_keeper nofun rfl rfl
  | store op =>
    obtain ⟨_, ⟨_, rfl⟩ | ⟨_, rfl⟩⟩ := call_store_cases h
    · exact .sent (.request ⟨op, k, .caller s.calls.length⟩) nofun (Or.inl rfl) rfl
    · exact tends_of_keeper nofun rfl rfl
  | snapshot =>
    obtain ⟨_, ⟨_, rfl⟩ | ⟨_, rfl⟩⟩ := call_snapshot_cases h
    · exact .sent (.snapshot s.calls.length) nofun (Or.inl rfl) rfl
    · exact tends_of_keeper nofun rfl rfl

theorem keeper_foldl {α : Type} {g : Cluster → α → Cluster}
    (hg : ∀ (u : Cluster) a, (g u a).keeper = u.keeper) (as : List α) (s : Cluster) :
    (as.foldl g s).keeper = s.keeper := by
  induction as generalizing s with
  | nil => rfl
  | cons a rest ih => exact (ih (g s a)).trans (hg s a)

/-- All the killing of a store leaves of it is what is left of any actor that has stopped. -/
theorem keeper_killStore (hrun : s.keeper.running = true) :
    s.killStore.keeper = s.keeper.halt := by
  have hdropped : s.dropWaiters.keeper = s.keeper := by
    rw [dropWaiters_eq_tell, keeper_tell]
  have hlose : ∀ (u : Cluster) command, (u.lose command).keeper = u.keeper := by
    intro u command
    rw [lose_eq_tell, keeper_tell]
  have haway : ∀ (u : Cluster) command, (u.turnAway command).keeper = u.keeper := by
    rintro u (⟨op, key, i | c⟩ | c) <;> rfl
  rw [killStore, if_pos hrun]
  change Keeper.halt (_ : Cluster).keeper = _
  rw [keeper_foldl haway, keeper_foldl hlose, hdropped]

theorem tends_perform {a : Act} (h : s.perform a = some t) : s.Tends (.act a) [] t.keeper := by
  cases a with
  | call target k => exact tends_call h
  | take c =>
    obtain ⟨_, rfl⟩ := take_cases h
    exact tends_of_keeper nofun rfl rfl
  | wait c =>
    obtain ⟨_, rfl⟩ := wait_cases h
    exact tends_of_keeper nofun rfl rfl
  | cancel c =>
    obtain rfl := Option.some.inj h
    obtain heq | ⟨_, ⟨_, heq⟩ | heq⟩ := cancel_cases s c
    · exact tends_of_keeper nofun (by rw [heq]) rfl
    · exact tends_of_keeper nofun (by rw [heq]; rfl) rfl
    · rw [heq]
      exact .withdrew (.caller c) nofun
  | closeClient i =>
    obtain rfl := closeClient_cases h
    exact tends_of_keeper nofun rfl rfl
  | closeStore =>
    obtain rfl := Option.some.inj h
    exact .closed
  | killClient i =>
    obtain ⟨m, _, ⟨_, hkeeper, _⟩ | ⟨_, rfl⟩⟩ := killClient_cases h
    · rw [hkeeper]
      exact .withdrew (.client i) nofun
    · exact tends_of_keeper nofun rfl rfl
  | killStore =>
    obtain rfl := Option.some.inj h
    cases hrun : s.keeper.running with
    | true =>
      rw [keeper_killStore hrun]
      exact .stopped nofun rfl
    | false => exact tends_of_keeper nofun (by simp [killStore, hrun]) rfl

theorem tends_step (h : s.step l = some (t, es)) : s.Tends l es t.keeper := by
  cases l with
  | act a =>
    obtain ⟨hact, rfl⟩ := step_act h
    exact tends_perform hact
  | move mv =>
    obtain ⟨e, hfire, rfl⟩ := step_move h
    exact tends_fire hfire

/-- The handle stays until it is let go of. -/
theorem handle_step (hl : l ≠ .act .closeStore) (h : s.step l = some (t, es)) :
    t.keeper.handle = s.keeper.handle := by
  have tends := tends_step h
  generalize t.keeper = k at tends
  cases tends with
  | closed => exact absurd rfl hl
  | _ => rfl

theorem handle_fire {mv : Move} (h : s.fire mv = some (t, e)) :
    t.keeper.handle = s.keeper.handle :=
  handle_step (l := .move mv) (by simp) (by rw [step, h]; rfl)

theorem handle_perform {a : Act} (ha : a ≠ .closeStore) (h : s.perform a = some t) :
    t.keeper.handle = s.keeper.handle :=
  handle_step (l := .act a) (by simpa using ha) (by rw [step, h]; rfl)

end Cluster

end Custody
