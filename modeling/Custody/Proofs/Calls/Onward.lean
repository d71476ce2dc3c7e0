import Custody.Proofs.Calls.Accounts

/-!
# What becomes of a call by itself

While its caller does nothing, two things can happen to a call: the first news of it arrives, and it
ends. Every move and every death of an actor keeps to this, for all calls at once. So a call that
has ended stays as it is, and one that has heard nothing so far never had heard anything.
-/

namespace Custody

inductive Status.Follows : Status → Status → Prop
  | same (status : Status) : Follows status status
  | heard (held : Bool) (slot : Slot Answer) (unspent : slot ≠ .spent) :
      Follows (.pending held .empty) (.pending held slot)
  | ended (held : Bool) (slot : Slot Answer) (o : Outcome)
      (earned : o = .void → held = false ∧ slot = .spent) : Follows (.pending held slot) (.ended o)

/-- `call'` is what has become of `call`. -/
structure Call.Becomes (call call' : Call) : Prop where
  target : call'.target = call.target
  key : call'.key = call.key
  follows : call.status.Follows call'.status

/-- Nothing has been heard of the call yet. -/
def Call.Open (call : Call) : Prop := ∃ held, call.status = .pending held .empty

variable {a b c : Status} {call call' call'' : Call}

theorem Status.Follows.trans (h : a.Follows b) (h' : b.Follows c) : a.Follows c := by
  cases h' with
  | same => exact h
  | heard held slot unspent =>
    generalize hb : Status.pending held .empty = b at h
    cases h with
    | same =>
      rw [← hb]
      exact .heard held slot unspent
    | heard held' _ _ =>
      cases hb
      exact .heard held slot unspent
    | ended => cases hb
  | ended held slot o earned =>
    generalize hb : Status.pending held slot = b at h
    cases h with
    | same =>
      rw [← hb]
      exact .ended held slot o earned
    | heard held' slot' unspent =>
      cases hb
      apply Status.Follows.ended
      intro hvoid
      exact absurd (earned hvoid).2 unspent
    | ended => cases hb

theorem Status.Follows.of_open {held : Bool} (h : a.Follows b) (hb : b = .pending held .empty) :
    a = .pending held .empty := by
  cases h with
  | same => exact hb
  | heard =>
    cases hb
    rfl
  | ended => cases hb

theorem Status.Follows.of_pending {held : Bool} {slot : Slot Answer} (h : a.Follows b)
    (hb : b = .pending held slot) : ∃ slot', a = .pending held slot' := by
  cases h with
  | same => exact ⟨slot, hb⟩
  | heard =>
    cases hb
    exact ⟨.empty, rfl⟩
  | ended => cases hb

theorem Status.Follows.eq_of_done (h : a.Follows b) (hdone : a.isPending = false) : b = a := by
  cases h with
  | same => rfl
  | heard => cases hdone
  | ended => cases hdone

namespace Call

theorem Becomes.refl (call : Call) : call.Becomes call := ⟨rfl, rfl, .same _⟩

theorem Becomes.trans (h : call.Becomes call') (h' : call'.Becomes call'') : call.Becomes call'' :=
  ⟨h'.target.trans h.target, h'.key.trans h.key, h.follows.trans h'.follows⟩

theorem Becomes.open (h : call.Becomes call') (hopen : call'.Open) : call.Open := by
  obtain ⟨held, hstatus⟩ := hopen
  exact ⟨held, h.follows.of_open hstatus⟩

theorem becomes_receive {news : Slot Answer} (unspent : news ≠ .spent) :
    call.Becomes (call.receive news) := by
  refine ⟨target_receive, key_receive, ?_⟩
  rcases status_receive call news with ⟨held, hopen, hnews⟩ | ⟨hsame, _⟩
  · rw [hopen, hnews]
    exact .heard held news unspent
  · rw [hsame]
    exact .same _

theorem not_open_receive {news : Slot Answer} (hnews : news ≠ .empty) :
    ¬ (call.receive news).Open := by
  rintro ⟨held, hopen⟩
  rcases status_receive call news with ⟨held', _, hstatus⟩ | ⟨hsame, hheard⟩
  · rw [hstatus] at hopen
    cases hopen
    exact hnews rfl
  · exact hheard held (hsame.symm.trans hopen)

theorem becomes_refuse {f : Fault} : call.Becomes (call.refuse f) := by
  obtain ⟨target, key, status⟩ := call
  cases status with
  | pending held slot => exact ⟨rfl, rfl, .ended held slot _ nofun⟩
  | _ => exact ⟨rfl, rfl, .same _⟩

theorem not_open_refuse {f : Fault} : ¬ (call.refuse f).Open := by
  obtain ⟨target, key, status⟩ := call
  rintro ⟨held, hopen⟩
  cases status <;> cases hopen

theorem becomes_hear (f : Option Fate) : call.Becomes (call.hear f) := by
  cases f with
  | none => exact Becomes.refl call
  | some f =>
    cases f with
    | answered r => exact becomes_receive nofun
    | discarded => exact becomes_receive nofun

theorem not_open_hear (f : Fate) : ¬ (call.hear (some f)).Open := by
  cases f with
  | answered r => exact not_open_receive nofun
  | discarded => exact not_open_receive nofun

/-- A call that is a little older: it may have heard news, ended, been waited for or given up. -/
structure Ages (call call' : Call) : Prop where
  target : call'.target = call.target
  key : call'.key = call.key
  opened : call'.Open → call.Open
  held : ∀ slot, call'.status = .pending true slot → ∃ slot', call.status = .pending true slot'

theorem Becomes.ages (h : call.Becomes call') : call.Ages call' :=
  ⟨h.target, h.key, h.open, fun _ hstatus => h.follows.of_pending hstatus⟩

theorem ages_cancelled (call : Call) : call.Ages { call with status := .cancelled } := by
  refine ⟨rfl, rfl, ?_, nofun⟩
  rintro ⟨held, hopen⟩
  cases hopen

end Call

/-! ## Place by place -/

section

variable {α : Type} {R S : α → α → Prop} {l l' l'' : List α} {n : Nat} {x y : α}

theorem before_of_forall₂ (h : List.Forall₂ R l l') (hy : l'[n]? = some y) :
    ∃ x, l[n]? = some x ∧ R x y := by
  induction h generalizing n with
  | nil => cases hy
  | cons hab _ ih =>
    cases n with
    | zero =>
      obtain rfl := Option.some.inj hy
      exact ⟨_, rfl, hab⟩
    | succ n => exact ih hy

theorem after_of_forall₂ (h : List.Forall₂ R l l') (hx : l[n]? = some x) :
    ∃ y, l'[n]? = some y ∧ R x y :=
  before_of_forall₂ (List.Forall₂.flip (R := fun x y => R y x) h) hx

theorem forall₂_trans (htrans : ∀ x y z, R x y → R y z → R x z) (h : List.Forall₂ R l l')
    (h' : List.Forall₂ R l' l'') : List.Forall₂ R l l'' := by
  induction h generalizing l'' with
  | nil =>
    cases h'
    exact .nil
  | cons hab _ ih =>
    cases h' with
    | cons hbc hrest => exact .cons (htrans _ _ _ hab hbc) (ih hrest)

theorem forall₂_modify (hrefl : ∀ x, R x x) {f : α → α} (hf : ∀ x, l[n]? = some x → R x (f x)) :
    List.Forall₂ R l (l.modify n f) := by
  induction l generalizing n with
  | nil =>
    rw [List.modify_nil]
    exact .nil
  | cons a rest ih =>
    have hsame : List.Forall₂ R rest rest := List.forall₂_same.mpr fun x _ => hrefl x
    cases n with
    | zero => exact .cons (hf a rfl) hsame
    | succ n => exact .cons (hrefl a) (ih hf)

end

namespace Cluster

variable {s t u : Cluster} {e : Event} {i n : Nat} {m : Member}

/-- Every call of `s` has become one of `t`, and there are no others. -/
def Onward (s t : Cluster) : Prop := List.Forall₂ Call.Becomes s.calls t.calls

theorem onward_of_calls (h : t.calls = s.calls) : s.Onward t := by
  rw [Onward, h]
  exact List.forall₂_same.mpr fun call _ => .refl call

theorem Onward.trans (h : s.Onward t) (h' : t.Onward u) : s.Onward u :=
  forall₂_trans (fun _ _ _ hab hbc => hab.trans hbc) h h'

theorem Onward.before (h : s.Onward t) (hcall : t.calls[n]? = some call') :
    ∃ call, s.calls[n]? = some call ∧ call.Becomes call' :=
  before_of_forall₂ h hcall

theorem Onward.after (h : s.Onward t) (hcall : s.calls[n]? = some call) :
    ∃ call', t.calls[n]? = some call' ∧ call.Becomes call' :=
  after_of_forall₂ h hcall

theorem onward_onCall {f : Call → Call} (hf : ∀ call, s.calls[n]? = some call →
    call.Becomes (f call)) : s.Onward (s.onCall n f) :=
  forall₂_modify (fun call => .refl call) hf

theorem onward_answer (job : Job) (r : ClientReply) : s.Onward (s.answer job r) :=
  onward_onCall fun _ _ => Call.becomes_receive nofun

theorem onward_foldl {α : Type} {g : Cluster → α → Cluster}
    (hg : ∀ (s : Cluster) a, s.Onward (g s a))
    (l : List α) (s : Cluster) : s.Onward (l.foldl g s) := by
  induction l generalizing s with
  | nil => exact onward_of_calls rfl
  | cons a rest ih => exact (hg s a).trans (ih (g s a))

theorem onward_deliver (who : Requester) (f : Fate) : s.Onward (s.deliver who f.news) := by
  cases who with
  | client i => exact onward_of_calls rfl
  | caller c => exact onward_onCall fun call _ => Call.becomes_hear (some f)

theorem onward_tell (fates : List (Requester × Fate)) : s.Onward (s.tell fates) := by
  apply onward_foldl
  intro s f
  exact onward_deliver f.1 f.2

theorem onward_turnAway (command : Command) : s.Onward (s.turnAway command) := by
  rcases command with ⟨op, key, i | c⟩ | c
  · exact onward_of_calls rfl
  · exact onward_onCall fun _ _ => Call.becomes_refuse
  · exact onward_onCall fun _ _ => Call.becomes_refuse

/-- What is in the queue of a store that is killed is lost. -/
theorem lose_eq_tell (s : Cluster) (command : Command) :
    s.lose command = s.tell [(command.sender, .discarded)] := by
  cases command <;> rfl

theorem onward_lose (command : Command) : s.Onward (s.lose command) := by
  rw [lose_eq_tell]
  exact onward_tell _

/-! ## Moves and deaths -/

/-- A caller that takes note finds a void outcome only where it has already taken notice. -/
theorem onward_finish (h : s.finish n = some (t, e)) : s.Onward t := by
  obtain ⟨call, o, hcall, ho, rfl, _⟩ := finish_cases h
  apply onward_onCall
  intro call' hcall'
  obtain rfl := Option.some.inj (hcall.symm.trans hcall')
  refine ⟨rfl, rfl, ?_⟩
  unfold outcome? at ho
  split at ho
  · rename_i a hstatus
    obtain rfl := Option.some.inj ho
    rw [hstatus]
    exact .ended false _ _ nofun
  · rename_i hstatus
    obtain rfl := Option.some.inj ho
    rw [hstatus]
    exact .ended false _ _ nofun
  · rename_i hstatus
    obtain rfl := Option.some.inj ho
    rw [hstatus]
    exact .ended false _ _ fun _ => ⟨rfl, rfl⟩
  · cases ho

theorem onward_fire {mv : Move} (h : s.fire mv = some (t, e)) : s.Onward t := by
  cases mv with
  | serve =>
    obtain ⟨_, rest, ⟨r, _, rfl, _⟩ | ⟨c, _, rfl, _⟩⟩ := serve_cases h
    · exact onward_tell (s := s.stored rest _) _
    · exact onward_onCall (s := s.stored rest s.keeper.store)
        fun _ _ => Call.becomes_receive nofun
  | begin i =>
    obtain ⟨m, job, rest, cache, _, _, _, _, hcases⟩ := begin_cases h
    obtain ⟨r, _, rfl, _⟩ | ⟨_, _, rfl, _⟩ | ⟨_, _, last, r, _, rfl, _⟩ := hcases
    · exact onward_answer (s := s.onMember i _) job r
    · exact onward_of_calls rfl
    · exact onward_answer (s := s.onMember i _) job r
  | resume i =>
    obtain ⟨m, job, _, _, cache, r, _, _, _, _, rfl, _⟩ := resume_cases h
    exact onward_answer (s := s.onMember i _) job r
  | leave i =>
    obtain ⟨_, _, _, _, _, _, rfl, _⟩ := leave_cases h
    exact onward_of_calls rfl
  | retire =>
    obtain ⟨_, _, _, rfl, _⟩ := retire_cases h
    rw [dropWaiters_eq_tell]
    exact onward_tell (s := s) _
  | finish c => exact onward_finish h

theorem onward_run {moves : List Move} {es : List Event}
    (h : s.run (moves.map .move) = some (t, es)) : s.Onward t := by
  refine run_induction (A := fun l => ∃ mv, l = .move mv) (P := fun u _ => s.Onward u) ?_ ?_ []
    (onward_of_calls rfl) h
  · rintro u past _ v now ⟨mv, rfl⟩ hbefore hstep
    obtain ⟨e, hfire, _⟩ := step_move hstep
    exact hbefore.trans (onward_fire hfire)
  · intro l hl
    obtain ⟨mv, _, rfl⟩ := List.mem_map.mp hl
    exact ⟨mv, rfl⟩

/-- The calls of the jobs of a member that is killed: those inside are dropped, those outside
refused. -/
theorem calls_killClient (h : s.killClient i = some t) (hm : s.members[i]? = some m)
    (hrun : m.running = true) :
    t.calls = (m.inbox.blocked.foldl (fun s job => s.onCall job.call
      (·.refuse (.failure (.clientUnavailable m.name))))
        ((m.work.toList.map (·.job) ++ m.inbox.queued).foldl
          (fun s job => s.onCall job.call (·.receive .dropped)) s)).calls := by
  simp only [killClient, hm, hrun, Option.bind_eq_bind, Option.bind_some, if_true] at h
  obtain rfl := Option.some.inj h
  rfl

theorem onward_killClient (h : s.killClient i = some t) : s.Onward t := by
  obtain ⟨m, hm, ⟨hrun, _⟩ | ⟨_, rfl⟩⟩ := killClient_cases h
  · have hlost : ∀ (u : Cluster) (job : Job), u.Onward (u.onCall job.call (·.receive .dropped)) :=
      fun u job => onward_onCall fun _ _ => Call.becomes_receive nofun
    have hrefused : ∀ (u : Cluster) (job : Job), u.Onward (u.onCall job.call
        (·.refuse (.failure (.clientUnavailable m.name)))) :=
      fun u job => onward_onCall fun _ _ => Call.becomes_refuse
    have honward := (onward_foldl hlost (m.work.toList.map (·.job) ++ m.inbox.queued) s).trans
      (onward_foldl hrefused m.inbox.blocked _)
    rw [Onward, calls_killClient h hm hrun]
    exact honward
  · exact onward_of_calls rfl

theorem onward_killStore (s : Cluster) : s.Onward s.killStore := by
  unfold killStore
  split
  · have hdropped : s.Onward s.dropWaiters := by
      rw [dropWaiters_eq_tell]
      exact onward_tell _
    have hlost := onward_foldl (fun s command => onward_lose command) s.keeper.inbox.queued
      s.dropWaiters
    have haway := onward_foldl (fun s command => onward_turnAway command) s.keeper.inbox.blocked
      (s.keeper.inbox.queued.foldl lose s.dropWaiters)
    exact (hdropped.trans hlost).trans haway
  · exact onward_of_calls rfl

/-! ## What a step does to calls -/

theorem ages_of_onward (h : s.Onward t) : List.Forall₂ Call.Ages s.calls t.calls :=
  h.imp fun _ _ hab => hab.ages

theorem ages_onCall {f : Call → Call} (hf : ∀ call, s.calls[n]? = some call → call.Ages (f call)) :
    List.Forall₂ Call.Ages s.calls (s.onCall n f).calls :=
  forall₂_modify (fun call => (Call.Becomes.refl call).ages) hf

/-- A step makes at most one call, held if its caller means to hold it, and all others get older. -/
theorem ages_step {l : Label} {now : List Event} (h : s.step l = some (t, now)) :
    (∃ target k status, l = .act (.call target k) ∧ t.calls = s.calls ++ [⟨target, k, status⟩] ∧
      ∀ held slot, status = .pending held slot → held = target.isHeld) ∨
    ((∀ target k, l ≠ .act (.call target k)) ∧ List.Forall₂ Call.Ages s.calls t.calls) := by
  have hopened : ∀ (target : Target) (held : Bool) (slot : Slot Answer),
      Status.pending target.isHeld .empty = .pending held slot → held = target.isHeld :=
    fun target held slot hstatus => (Status.pending.inj hstatus).1.symm
  cases l with
  | move mv =>
    obtain ⟨e, hfire, _⟩ := step_move h
    exact Or.inr ⟨by simp, ages_of_onward (onward_fire hfire)⟩
  | act a =>
    obtain ⟨hact, _⟩ := step_act h
    cases a with
    | call target k =>
      left
      cases target with
      | client j a manner =>
        obtain ⟨_, _, _, ⟨_, rfl⟩ | ⟨_, rfl⟩⟩ := call_client_cases hact
        · exact ⟨_, k, _, rfl, rfl, hopened _⟩
        · exact ⟨_, k, _, rfl, rfl, nofun⟩
      | store op =>
        obtain ⟨_, ⟨_, rfl⟩ | ⟨_, rfl⟩⟩ := call_store_cases hact
        · exact ⟨_, k, _, rfl, rfl, hopened (.store op)⟩
        · exact ⟨_, k, _, rfl, rfl, nofun⟩
      | snapshot =>
        obtain ⟨_, ⟨_, rfl⟩ | ⟨_, rfl⟩⟩ := call_snapshot_cases hact
        · exact ⟨_, k, _, rfl, rfl, hopened .snapshot⟩
        · exact ⟨_, k, _, rfl, rfl, nofun⟩
    | take c =>
      refine Or.inr ⟨by simp, ?_⟩
      obtain ⟨call, hcall, ⟨_, _, rfl⟩ | ⟨hstatus, rfl⟩ | rfl⟩ := take_held_cases hact
      · refine ages_onCall fun _ _ => ⟨rfl, rfl, ?_, nofun⟩
        rintro ⟨held, hopen⟩
        cases hopen
      · refine ages_onCall fun call' hcall' => ⟨rfl, rfl, ?_, fun slot _ => ?_⟩
        · rintro ⟨held, hopen⟩
          cases hopen
        · obtain rfl := Option.some.inj (hcall.symm.trans hcall')
          exact ⟨_, hstatus⟩
      · exact ages_of_onward (onward_of_calls rfl)
    | wait c =>
      refine Or.inr ⟨by simp, ?_⟩
      obtain ⟨call, slot, hcall, hstatus, rfl⟩ := wait_held_cases hact
      refine ages_onCall fun call' hcall' => ⟨rfl, rfl, ?_, nofun⟩
      obtain rfl := Option.some.inj (hcall.symm.trans hcall')
      rintro ⟨held, hopen⟩
      cases hopen
      exact ⟨true, hstatus⟩
    | cancel c =>
      obtain rfl := Option.some.inj hact
      refine Or.inr ⟨by simp, ?_⟩
      obtain heq | ⟨_, _, _, ⟨j, _, _, _, heq⟩ | ⟨_, heq⟩⟩ := cancel_target_cases s c
      · rw [heq]
        exact ages_of_onward (onward_of_calls rfl)
      · rw [heq]
        exact ages_onCall (s := s.withdrawJob j c) fun call _ => Call.ages_cancelled call
      · rw [heq]
        exact ages_onCall (s := s.withdraw (.caller c)) fun call _ => Call.ages_cancelled call
    | closeClient j =>
      obtain rfl := closeClient_cases hact
      exact Or.inr ⟨by simp, ages_of_onward (onward_of_calls rfl)⟩
    | closeStore =>
      obtain rfl := Option.some.inj hact
      exact Or.inr ⟨by simp, ages_of_onward (onward_of_calls rfl)⟩
    | killClient j => exact Or.inr ⟨by simp, ages_of_onward (onward_killClient hact)⟩
    | killStore =>
      obtain rfl := Option.some.inj hact
      exact Or.inr ⟨by simp, ages_of_onward (onward_killStore s)⟩

end Cluster

end Custody
