import Custody.Proofs.Cluster.Rules

/-!
# Every move lowers the load

A job that is taken up costs no more than the request it becomes and the answer to come, a request
that is served costs nothing more, and a caller that takes note of its outcome is done. So a
cluster to which nothing is done from outside comes to rest.
-/

namespace Custody

variable {α : Type} {f : α → Nat} {l : List α} {i : Nat}

theorem total_modify {a : α} {g : α → α} (h : l[i]? = some a) :
    total f (l.modify i g) + f a = total f l + f (g a) := by
  induction l generalizing i with
  | nil => cases h
  | cons b rest ih =>
    cases i with
    | zero =>
      obtain rfl := Option.some.inj h
      rw [List.modify_zero_cons, total, total]
      omega
    | succ i =>
      have hrest := ih (i := i) h
      rw [List.modify_succ_cons, total, total]
      omega

theorem total_modify_of_same {g : α → α} (hg : ∀ a, f (g a) = f a) :
    total f (l.modify i g) = total f l := by
  cases h : l[i]? with
  | none =>
    rw [List.modify_eq_self]
    exact List.getElem?_eq_none_iff.mp h
  | some a =>
    have hmodify := total_modify (f := f) (g := g) h
    rw [hg a] at hmodify
    omega

theorem total_append (l m : List α) : total f (l ++ m) = total f l + total f m := by
  induction l with
  | nil => simp [total]
  | cons a rest ih =>
    rw [List.cons_append, total, total, ih]
    omega

theorem countP_eq_total (p : α → Bool) (l : List α) :
    l.countP p = total (fun a => (p a).toNat) l := by
  induction l with
  | nil => rfl
  | cons a rest ih =>
    rw [List.countP_cons, total, ih]
    cases p a <;> simp [Nat.add_comm]

theorem isPending_receive (c : Call) (news : Slot Answer) :
    (c.receive news).isPending = c.isPending := by
  obtain ⟨target, key, status⟩ := c
  cases status <;> rfl

theorem load_receive (m : Member) (news : Slot StoreReply) : (m.receive news).load = m.load := by
  obtain ⟨name, inbox, handle, running, cache, work⟩ := m
  cases work <;> rfl

namespace Cluster

variable {s t : Cluster} {e : Event}

theorem load_eq (s : Cluster) : s.load = s.keeper.inbox.entries.length + s.keeper.running.toNat +
    total Member.load s.members + total (fun c => c.isPending.toNat) s.calls := by
  rw [load, countP_eq_total]

theorem load_onMember {m : Member} {g : Member → Member} (hm : s.members[i]? = some m) :
    (s.onMember i g).load + m.load = s.load + (g m).load := by
  have htotal := total_modify (f := Member.load) (g := g) hm
  simp only [load_eq, onMember] at *
  omega

theorem load_onCall {c : Call} {g : Call → Call} {id : Nat} (hc : s.calls[id]? = some c) :
    (s.onCall id g).load + c.isPending.toNat = s.load + (g c).isPending.toNat := by
  have htotal := total_modify (f := fun c : Call => c.isPending.toNat) (g := g) hc
  simp only [load_eq, onCall] at *
  omega

theorem load_onCall_of_same {g : Call → Call} (hg : ∀ c, (g c).isPending = c.isPending)
    (id : Nat) : (s.onCall id g).load = s.load := by
  simp only [load_eq, onCall]
  rw [total_modify_of_same fun c => by rw [hg]]

theorem load_send (s : Cluster) (c : Command) : (s.send c).load = s.load + 1 := by
  simp only [load_eq, entries_send, running_send, members_send, calls_send, List.length_append,
    List.length_singleton]
  omega

theorem load_answer (s : Cluster) (job : Job) (r : ClientReply) : (s.answer job r).load = s.load :=
  load_onCall_of_same (fun c => isPending_receive c _) _

theorem load_deliver (s : Cluster) (who : Requester) (news : Slot StoreReply) :
    (s.deliver who news).load = s.load := by
  cases who with
  | client i =>
    simp only [deliver, load_eq, onMember]
    rw [total_modify_of_same fun m => load_receive m news]
  | caller c => exact load_onCall_of_same (fun c => isPending_receive c _) _

theorem load_tell (s : Cluster) (fates : List (Requester × Fate)) :
    (s.tell fates).load = s.load := by
  induction fates generalizing s with
  | nil => rfl
  | cons f rest ih => rw [tell_cons, ih, load_deliver]

theorem load_halt (m : Member) (hrun : m.running = true) : m.halt.load < m.load := by
  simp [Member.halt, Member.load, Inbox.clear, hrun]

theorem load_enter (s : Cluster) (target : Target) (k : Key) (status : Status) :
    (s.enter target k status).load = s.load + status.isPending.toNat := by
  simp only [load_eq, enter, total_append, total, Call.isPending]
  omega

/-- A call costs what its caller and its job cost. -/
theorem load_call_client {a : Action} {manner : Manner} {k : Key}
    (h : s.call (.client i a manner) k = some t) : t.load ≤ s.load + 4 := by
  obtain ⟨m, hm, _, ⟨_, rfl⟩ | ⟨_, rfl⟩⟩ := call_client_cases h
  · have hpush : Member.load { m with inbox := m.inbox.push ⟨s.calls.length, a, k⟩ } =
        m.load + 3 := by
      simp only [Member.load, Inbox.push, List.length_append, List.length_singleton]
      omega
    have hload := load_onMember
      (s := s.enter (.client i a manner) k (.pending (Target.client i a manner).isHeld .empty))
      (g := fun m => { m with inbox := m.inbox.push ⟨s.calls.length, a, k⟩ }) hm
    rw [load_enter, hpush] at hload
    simp only [Status.isPending, Bool.toNat_true] at hload
    omega
  · rw [load_enter]
    simp only [Status.isPending, Bool.toNat_false]
    omega

theorem pending_of_outcome {c : Call} {o : Outcome} (h : s.outcome? c = some o) :
    c.isPending = true := by
  unfold outcome? at h
  rw [Call.isPending]
  split at h
  · rename_i hstatus
    rw [hstatus]
    rfl
  · rename_i hstatus
    rw [hstatus]
    rfl
  · rename_i hstatus
    rw [hstatus]
    rfl
  · cases h

theorem load_take {m : Member} {job : Job} {rest : List Job} (cache : Cache)
    (hentries : m.inbox.entries = job :: rest) : (m.take cache rest).load + 3 = m.load := by
  simp only [Member.take, Member.load, hentries, List.length_cons]
  omega

theorem load_begin (h : s.begin i = some (t, e)) : t.load < s.load := by
  obtain ⟨m, job, rest, cache, hm, hrun, hwork, hentries, hcases⟩ := begin_cases h
  obtain ⟨r, _, rfl, _⟩ | ⟨_, _, rfl, _⟩ | ⟨_, _, last, r, _, rfl, _⟩ := hcases
  · have hload := load_onMember (g := fun _ => m.take cache rest) hm
    have htake := load_take cache hentries
    rw [load_answer]
    omega
  · have hload := load_onMember
      (g := fun _ => { m.take cache rest with work := some ⟨job, .empty⟩ }) hm
    have htake := load_take cache hentries
    have hasked : Member.load { m.take cache rest with work := some ⟨job, .empty⟩ } =
        (m.take cache rest).load + 1 := by
      simp only [Member.take, Member.load, hwork, Option.toList, List.length_nil,
        List.length_singleton]
      omega
    rw [load_send]
    omega
  · have hload := load_onMember (g := fun _ => { m.take last rest with work := none }) hm
    have htake := load_take last hentries
    have hidle : Member.load { m.take last rest with work := none } =
        (m.take last rest).load := by
      simp only [Member.take, Member.load, hwork]
    rw [load_answer]
    omega

theorem load_retire (h : s.retire = some (t, e)) : t.load < s.load := by
  obtain ⟨hrun, hentries, _, rfl, _⟩ := retire_cases h
  have hdrop : s.dropWaiters.load = s.load := by
    rw [dropWaiters_eq_tell, load_tell]
  have hkeeper : s.dropWaiters.keeper = s.keeper := by
    rw [dropWaiters_eq_tell, keeper_tell]
  rw [← hdrop]
  simp only [load_eq, hkeeper, Keeper.halt, Inbox.clear, hrun, hentries, Bool.toNat_true,
    Bool.toNat_false]
  omega

/-- What a move costs is taken from the load. -/
theorem load_fire {m : Move} (h : s.fire m = some (t, e)) : t.load < s.load := by
  cases m with
  | serve =>
    obtain ⟨_, rest, ⟨r, hentries, rfl, _⟩ | ⟨c, hentries, rfl, _⟩⟩ := serve_cases h
    · rw [load_tell]
      simp only [load_eq, stored, hentries, List.length_cons]
      omega
    · rw [load_onCall_of_same fun c => isPending_receive c _]
      simp only [load_eq, stored, hentries, List.length_cons]
      omega
  | begin i => exact load_begin h
  | resume i =>
    obtain ⟨m, job, slot, answer, cache, r, hm, hwork, _, _, rfl, _⟩ := resume_cases h
    have hload := load_onMember (g := fun _ => { m with cache, work := none }) hm
    have hdone : Member.load { m with cache, work := none } + 1 = m.load := by
      simp only [Member.load, hwork, Option.toList, List.length_nil, List.length_singleton]
      omega
    rw [load_answer]
    omega
  | leave i =>
    obtain ⟨m, hm, hrun, _, _, _, rfl, _⟩ := leave_cases h
    have hload := load_onMember (g := Member.halt) hm
    have hless := load_halt m hrun
    omega
  | retire => exact load_retire h
  | finish id =>
    obtain ⟨c, o, hc, ho, rfl, _⟩ := finish_cases h
    have hload := load_onCall (g := fun c => { c with status := .ended o }) hc
    have hpending : c.isPending = true := pending_of_outcome ho
    have hended : Call.isPending { c with status := .ended o } = false := rfl
    rw [hpending, hended] at hload
    simp only [Bool.toNat_true, Bool.toNat_false] at hload
    omega

/-- The actors cannot move for ever. -/
theorem load_run {moves : List Move} {es : List Event}
    (h : s.run (moves.map .move) = some (t, es)) : moves.length + t.load ≤ s.load := by
  induction moves generalizing s es with
  | nil =>
    obtain ⟨rfl, _⟩ := Prod.mk.inj (Option.some.inj h)
    simp
  | cons m rest ih =>
    obtain ⟨u, now, later, hstep, hrest, _⟩ := run_cons h
    obtain ⟨e, hfire, _⟩ := step_move hstep
    have hless := load_fire hfire
    have hbound := ih hrest
    rw [List.length_cons]
    omega

/-- The list of moves leaves out none that is possible. -/
theorem mem_moves {m : Move} (h : s.fire m = some (t, e)) : m ∈ s.moves := by
  have hmember : ∀ {i : Nat} {x : Member}, s.members[i]? = some x →
      ∀ mv ∈ [Move.begin i, .resume i, .leave i], mv ∈ s.moves := by
    intro i x hx mv hmv
    obtain ⟨hi, _⟩ := List.getElem?_eq_some_iff.mp hx
    refine List.mem_cons_of_mem _ (List.mem_append_left _ (List.mem_append_left _ ?_))
    exact List.mem_flatMap.mpr ⟨i, List.mem_range.mpr hi, hmv⟩
  cases m with
  | serve => simp [moves]
  | begin i =>
    obtain ⟨m, _, _, _, hm, _⟩ := begin_cases h
    exact hmember hm _ (by simp)
  | resume i =>
    obtain ⟨m, _, _, _, _, _, hm, _⟩ := resume_cases h
    exact hmember hm _ (by simp)
  | leave i =>
    obtain ⟨m, hm, _⟩ := leave_cases h
    exact hmember hm _ (by simp)
  | retire => simp [moves]
  | finish id =>
    obtain ⟨c, _, hc, _⟩ := finish_cases h
    obtain ⟨hid, _⟩ := List.getElem?_eq_some_iff.mp hc
    simp [moves, hid]

end Cluster

end Custody
