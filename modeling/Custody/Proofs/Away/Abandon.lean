import Custody.Proofs.Order.Refit
import Custody.Proofs.Stop.Steps

/-!
# A caller that has gone away

A call on a client that has got into the client's queue is left by its caller without a trace: the
cluster is the same but for the status of that call. Nobody looks at this status again but the
caller itself, and the client when it asks who can still reach it. So all acts of others, and all
moves but the caller's own, do the same to the cluster with the caller and without.
-/

namespace Custody

namespace Cluster

/-- The caller of `c` has gone away, and nothing else has happened. -/
def abandon (s : Cluster) (c : Nat) : Cluster :=
  s.onCall c fun call => { call with status := .cancelled }

variable {s t : Cluster} {e : Event} {c d i : Nat} {call : Call}

@[simp] theorem keeper_abandon (s : Cluster) (c : Nat) : (s.abandon c).keeper = s.keeper := rfl

@[simp] theorem members_abandon (s : Cluster) (c : Nat) : (s.abandon c).members = s.members := rfl

@[simp] theorem length_calls_abandon (s : Cluster) (c : Nat) :
    (s.abandon c).calls.length = s.calls.length := length_calls_onCall s c _

theorem calls_abandon (s : Cluster) (c d : Nat) : (s.abandon c).calls[d]? =
    if c = d then s.calls[d]?.map fun call => { call with status := .cancelled }
    else s.calls[d]? := calls_onCall s d c _

theorem calls_abandon_of_ne (hd : d ≠ c) : (s.abandon c).calls[d]? = s.calls[d]? := by
  rw [calls_abandon, if_neg (Ne.symm hd)]

/-- Whoever has already gone away cannot go away again. -/
theorem cancel_abandon (s : Cluster) (c : Nat) : (s.abandon c).cancel c = s.abandon c := by
  rw [cancel, calls_abandon, if_pos rfl]
  cases s.calls[c]? <;> rfl

/-- What the caller of a queued call leaves behind is itself. -/
theorem cancel_eq_abandon {act : Action} {manner : Manner} (hcall : s.calls[c]? = some call)
    (htarget : call.target = .client i act manner) (hpending : call.isPending = true)
    (hqueued : s.isBlocked c i = false) : s.cancel c = s.abandon c := by
  rw [cancel, hcall]
  simp only [hpending, htarget, withdrawJob_of_inside hqueued, if_true]
  rfl

/-! ## Updates -/

/-- Calls may be changed in any order, and a call that is over takes no notice of news. -/
theorem onCall_abandon {f : Call → Call}
    (hf : d = c → ∀ call : Call, f { call with status := .cancelled } =
      { f call with status := .cancelled }) :
    (s.abandon c).onCall d f = (s.onCall d f).abandon c := by
  refine eq_of_parts rfl rfl (List.ext_getElem? fun n => ?_)
  rw [calls_onCall, calls_abandon, calls_abandon, calls_onCall]
  by_cases hd : d = n
  · by_cases hc : c = n
    · simp only [if_pos hd, if_pos hc]
      cases s.calls[n]? with
      | none => rfl
      | some call => exact congrArg some (hf (hd.trans hc.symm) call)
    · simp only [if_pos hd, if_neg hc]
  · simp only [if_neg hd]

theorem receive_abandon (s : Cluster) (c d : Nat) (news : Slot Answer) :
    (s.abandon c).onCall d (·.receive news) = (s.onCall d (·.receive news)).abandon c := by
  apply onCall_abandon
  rintro - ⟨target, key, status⟩
  cases status <;> rfl

theorem refuse_abandon (s : Cluster) (c d : Nat) (f : Fault) :
    (s.abandon c).onCall d (·.refuse f) = (s.onCall d (·.refuse f)).abandon c := by
  apply onCall_abandon
  rintro - ⟨target, key, status⟩
  cases status <;> rfl

theorem deliver_abandon (s : Cluster) (c : Nat) (who : Requester) (news : Slot StoreReply) :
    (s.abandon c).deliver who news = (s.deliver who news).abandon c := by
  cases who with
  | client i => rfl
  | caller d => exact receive_abandon s c d (news.map .store)

theorem foldl_abandon {α : Type} {g : Cluster → α → Cluster}
    (hg : ∀ s a, g (abandon s c) a = (g s a).abandon c) (l : List α) (s : Cluster) :
    l.foldl g (s.abandon c) = (l.foldl g s).abandon c := by
  induction l generalizing s with
  | nil => rfl
  | cons a rest ih => rw [List.foldl_cons, List.foldl_cons, hg, ih]

theorem dropWaiters_abandon (s : Cluster) (c : Nat) :
    (s.abandon c).dropWaiters = s.dropWaiters.abandon c :=
  foldl_abandon (fun s w => deliver_abandon s c w.2 .dropped) _ s

theorem enter_abandon (hc : c < s.calls.length) (target : Target) (k : Key) (status : Status) :
    (s.abandon c).enter target k status = (s.enter target k status).abandon c := by
  refine eq_of_parts rfl rfl (List.ext_getElem? fun n => ?_)
  rw [calls_abandon, enter, enter, List.getElem?_append, List.getElem?_append, calls_abandon,
    length_calls_abandon]
  by_cases hn : c = n
  · simp [← hn, hc]
  · simp [hn]

/-! ## Moves -/

/-- The store does not know the caller of a client, so it does not miss it. -/
theorem handle_abandon (hunknown : ∀ k, s.keeper.store.waiter k ≠ some (.caller c))
    (r : Request Requester) :
    (s.abandon c).handle r = ((s.handle r).1.abandon c, (s.handle r).2) := by
  have hsame : s.keeper.store.handle (s.abandon c).isPresent r =
      s.keeper.store.handle s.isPresent r := by
    apply Store.handle_congr
    intro v next _ x hx
    cases x with
    | client i => rfl
    | caller d =>
      have hd : d ≠ c := fun hd => hunknown r.key (hd ▸ hx)
      rw [isPresent, isPresent, calls_abandon_of_ne hd]
  simp only [handle, keeper_abandon, hsame]
  exact Prod.ext (foldl_abandon (fun s f => deliver_abandon s c f.1 f.2.news) _
    { s with keeper := { s.keeper with store := (s.keeper.store.handle s.isPresent r).1 } }) rfl

theorem serve_abandon (hunknown : ∀ k, s.keeper.store.waiter k ≠ some (.caller c)) :
    (s.abandon c).serve = s.serve.map (Prod.map (·.abandon c) id) := by
  rw [serve, serve, keeper_abandon]
  split
  · rename_i command rest hrun hentries
    cases command with
    | request r =>
      have hhandle := handle_abandon (s := s.stored rest s.keeper.store) hunknown r
      exact congrArg (fun p : Cluster × Verdict Requester => some (p.1, Event.served r p.2)) hhandle
    | snapshot d =>
      exact congrArg (fun u => some (u, Event.observed d s.keeper.store.snapshot))
        (receive_abandon (s.stored rest s.keeper.store) c d _)
  · rfl

theorem reply_abandon (s : Cluster) (c i : Nat) (job : Job) (r : ClientReply) :
    (s.abandon c).reply i job r = Prod.map (·.abandon c) id (s.reply i job r) :=
  Prod.ext (receive_abandon s c job.call _) rfl

theorem finishJob_abandon (s : Cluster) (c i : Nat) (m : Member) (job : Job)
    (answer : Option StoreReply) : (s.abandon c).finishJob i m job answer =
      Prod.map (·.abandon c) id (s.finishJob i m job answer) :=
  reply_abandon (s.onMember i _) c i job _

theorem begin_abandon (s : Cluster) (c i : Nat) :
    (s.abandon c).begin i = (s.begin i).map (Prod.map (·.abandon c) id) := by
  rw [begin, begin, members_abandon]
  cases s.members[i]? with
  | none => rfl
  | some m =>
    simp only [Option.bind_eq_bind, Option.bind_some]
    split
    · split
      · exact congrArg some (reply_abandon (s.onMember i _) c i _ _)
      · have hsame : (s.abandon c).keeper.running = s.keeper.running := rfl
        by_cases hrun : s.keeper.running = true
        · rw [if_pos hrun, if_pos (hsame.trans hrun)]
          rfl
        · rw [if_neg hrun, if_neg (hsame ▸ hrun)]
          exact congrArg some (finishJob_abandon s c i _ _ none)
    · rfl

theorem resume_abandon (s : Cluster) (c i : Nat) :
    (s.abandon c).resume i = (s.resume i).map (Prod.map (·.abandon c) id) := by
  rw [resume, resume, members_abandon]
  cases s.members[i]? with
  | none => rfl
  | some m =>
    simp only [Option.bind_eq_bind, Option.bind_some]
    split
    · exact congrArg some (finishJob_abandon s c i m _ _)
    · exact congrArg some (finishJob_abandon s c i m _ _)
    · rfl

theorem any_abandon {p : Call → Bool} (hp : ∀ call, s.calls[c]? = some call →
    p { call with status := .cancelled } = p call) :
    (s.abandon c).calls.any p = s.calls.any p := by
  rw [Bool.eq_iff_iff, List.any_eq_true, List.any_eq_true]
  simp only [List.mem_iff_getElem?, calls_abandon]
  constructor
  · rintro ⟨call', ⟨n, hcall'⟩, hany⟩
    split at hcall'
    · rename_i hn
      subst hn
      obtain ⟨call, hcall, rfl⟩ := Option.map_eq_some_iff.mp hcall'
      exact ⟨call, ⟨_, hcall⟩, (hp call hcall).symm.trans hany⟩
    · exact ⟨call', ⟨n, hcall'⟩, hany⟩
  · rintro ⟨call, ⟨n, hcall⟩, hany⟩
    by_cases hn : c = n
    · subst hn
      exact ⟨_, ⟨c, by rw [if_pos rfl, hcall]; rfl⟩, (hp call hcall).trans hany⟩
    · exact ⟨call, ⟨n, by rw [if_neg hn, hcall]⟩, hany⟩

/-- A client may notice that the caller is gone if the caller keeps a handle on it. -/
theorem leave_abandon (hunattached : ∀ call, s.calls[c]? = some call → call.attachedTo i = false) :
    (s.abandon c).leave i = (s.leave i).map (Prod.map (·.abandon c) id) := by
  have hreaches : ∀ m, (s.abandon c).reaches i m = s.reaches i m := by
    intro m
    rw [reaches, reaches, any_abandon]
    intro call hcall
    rw [hunattached call hcall, Call.attachedTo]
    split <;> rfl
  rw [leave, leave, members_abandon]
  cases s.members[i]? with
  | none => rfl
  | some m =>
    simp only [Option.bind_eq_bind, Option.bind_some, hreaches]
    split <;> rfl

theorem retire_abandon {act : Action} {manner : Manner} (hcall : s.calls[c]? = some call)
    (htarget : call.target = .client i act manner) :
    (s.abandon c).retire = s.retire.map (Prod.map (·.abandon c) id) := by
  have hreaches : (s.abandon c).reachesStore = s.reachesStore := by
    rw [reachesStore, reachesStore, any_abandon]
    · rfl
    · intro call' hcall'
      obtain rfl := Option.some.inj (hcall.symm.trans hcall')
      simp only [Call.onStore, htarget]
  rw [retire, retire, hreaches, keeper_abandon, dropWaiters_abandon]
  split <;> rfl

theorem finish_abandon (hd : d ≠ c) :
    (s.abandon c).finish d = (s.finish d).map (Prod.map (·.abandon c) id) := by
  rw [finish, finish, calls_abandon_of_ne hd]
  cases s.calls[d]? with
  | none => rfl
  | some call =>
    have houtcome : (s.abandon c).outcome? call = s.outcome? call := rfl
    simp only [Option.bind_eq_bind, Option.bind_some, houtcome]
    cases s.outcome? call with
    | none => rfl
    | some o =>
      exact congrArg (fun u => some (u, Event.ended d o)) (onCall_abandon fun h => absurd h hd)

/-! ## Acts -/

theorem call_abandon (hc : c < s.calls.length) (target : Target) (k : Key) :
    (s.abandon c).call target k = (s.call target k).map (·.abandon c) := by
  cases target with
  | client i act manner =>
    simp only [call, members_abandon, length_calls_abandon, enter_abandon hc]
    cases s.members[i]? with
    | none => rfl
    | some m =>
      simp only
      split
      · rfl
      · split <;> rfl
  | store op =>
    simp only [call, keeper_abandon, length_calls_abandon, enter_abandon hc]
    split
    · rfl
    · split <;> rfl
  | snapshot =>
    simp only [call, keeper_abandon, length_calls_abandon, enter_abandon hc]
    split
    · rfl
    · split <;> rfl

theorem take_abandon (hd : d ≠ c) : (s.abandon c).take d = (s.take d).map (·.abandon c) := by
  rw [take, take, calls_abandon_of_ne hd]
  cases s.calls[d]? with
  | none => rfl
  | some call =>
    simp only [Option.bind_eq_bind, Option.bind_some]
    split
    · exact congrArg some (onCall_abandon fun h => absurd h hd)
    · exact congrArg some (onCall_abandon fun h => absurd h hd)
    · rfl
    · rfl

theorem wait_abandon (hd : d ≠ c) : (s.abandon c).wait d = (s.wait d).map (·.abandon c) := by
  rw [wait, wait, calls_abandon_of_ne hd]
  cases s.calls[d]? with
  | none => rfl
  | some call =>
    simp only [Option.bind_eq_bind, Option.bind_some]
    split
    · exact congrArg some (onCall_abandon fun h => absurd h hd)
    · rfl

theorem cancel_abandon_of_ne (hd : d ≠ c) : (s.abandon c).cancel d = (s.cancel d).abandon c := by
  rw [cancel, cancel, calls_abandon_of_ne hd]
  cases s.calls[d]? with
  | none => rfl
  | some call =>
    simp only
    split
    · cases call.target with
      | client j act manner => exact onCall_abandon (s := s.withdrawJob j d) fun h => absurd h hd
      | _ => exact onCall_abandon (s := s.withdraw (.caller d)) fun h => absurd h hd
    · rfl

theorem closeClient_abandon (s : Cluster) (c i : Nat) :
    (s.abandon c).closeClient i = (s.closeClient i).map (·.abandon c) := by
  rw [closeClient, closeClient, members_abandon]
  split <;> rfl

theorem killClient_abandon (s : Cluster) (c i : Nat) :
    (s.abandon c).killClient i = (s.killClient i).map (·.abandon c) := by
  rw [killClient, killClient, members_abandon]
  cases s.members[i]? with
  | none => rfl
  | some m =>
    simp only [Option.bind_eq_bind, Option.bind_some]
    split
    · rw [foldl_abandon fun s (job : Job) => receive_abandon s c job.call .dropped,
        foldl_abandon fun s (job : Job) => refuse_abandon s c job.call _]
      rfl
    · rfl

theorem lose_abandon (s : Cluster) (c : Nat) (command : Command) :
    (s.abandon c).lose command = (s.lose command).abandon c := by
  cases command with
  | request r => exact deliver_abandon s c r.who .dropped
  | snapshot d => exact receive_abandon s c d .dropped

theorem turnAway_abandon (s : Cluster) (c : Nat) (command : Command) :
    (s.abandon c).turnAway command = (s.turnAway command).abandon c := by
  rcases command with ⟨op, key, i | d⟩ | d
  · rfl
  · exact refuse_abandon s c d _
  · exact refuse_abandon s c d _

theorem killStore_abandon (s : Cluster) (c : Nat) :
    (s.abandon c).killStore = s.killStore.abandon c := by
  rw [killStore, killStore, keeper_abandon]
  split
  · simp only [dropWaiters_abandon, foldl_abandon fun s => lose_abandon s c,
      foldl_abandon fun s => turnAway_abandon s c]
    rfl
  · rfl

end Cluster

end Custody
