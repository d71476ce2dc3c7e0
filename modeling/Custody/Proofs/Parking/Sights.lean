import Custody.Proofs.Cluster.Settle
import Custody.Proofs.Parking.Keeping
import Custody.Proofs.Stop.Steps

/-!
# What a snapshot call can come to

As long as its caller does nothing but wait, a snapshot call hears of nobody but the store: it gets
the snapshot of one moment since it was made, or learns that none will come. No reply to a request
goes astray to it, whatever else is done to the cluster, deaths included.
-/

namespace Custody

/-- How a snapshot call may stand whose caller waits, where `P` holds of all snapshots so far. -/
inductive Status.Expectant (P : Snapshot → Prop) : Status → Prop where
  | waiting : Expectant P (.pending false .empty)
  | shown (shot : Snapshot) (seen : P shot) :
      Expectant P (.pending false (.full (.snapshot shot)))
  | dropped : Expectant P (.pending false .dropped)
  | answered (shot : Snapshot) (seen : P shot) : Expectant P (.ended (.answered (.snapshot shot)))
  | failed (f : Fault) (hf : f = .snapshotNotSent ∨ f = .snapshotUnanswered) :
      Expectant P (.ended (.failed f))

variable {P Q : Snapshot → Prop} {status : Status} {call : Call}

theorem Status.Expectant.mono (h : status.Expectant P) (hPQ : ∀ shot, P shot → Q shot) :
    status.Expectant Q := by
  cases h with
  | waiting => exact .waiting
  | shown shot seen => exact .shown shot (hPQ shot seen)
  | dropped => exact .dropped
  | answered shot seen => exact .answered shot (hPQ shot seen)
  | failed f hf => exact .failed f hf

theorem Call.expectant_receive {news : Slot Answer} (h : call.status.Expectant P)
    (hnews : news = .dropped ∨ ∃ shot, P shot ∧ news = .full (.snapshot shot)) :
    (call.receive news).status.Expectant P := by
  obtain ⟨target, key, status⟩ := call
  cases h with
  | waiting =>
    obtain rfl | ⟨shot, seen, rfl⟩ := hnews
    · exact .dropped
    · exact .shown shot seen
  | shown shot seen => exact .shown shot seen
  | dropped => exact .dropped
  | answered shot seen => exact .answered shot seen
  | failed f hf => exact .failed f hf

theorem Call.expectant_refuse (h : call.status.Expectant P) :
    (call.refuse .snapshotNotSent).status.Expectant P := by
  unfold Call.refuse
  split
  · exact .failed _ (Or.inl rfl)
  · exact h

theorem Call.target_refuse (call : Call) (f : Fault) : (call.refuse f).target = call.target := by
  unfold Call.refuse
  split
  · rfl
  · rfl

namespace Cluster

variable {setup : Setup} {s t : Cluster} {l : Label} {labels : List Label} {e : Event}
  {es now : List Event} {c n : Nat}

/-- Call `c` is for a snapshot, and all it has heard is what `P` holds of. -/
def Expectant (P : Snapshot → Prop) (s : Cluster) (c : Nat) : Prop :=
  ∃ call, s.calls[c]? = some call ∧ call.target = .snapshot ∧ call.status.Expectant P

theorem Expectant.of_calls (h : s.Expectant P c) (hcalls : t.calls = s.calls) :
    t.Expectant P c := by
  rw [Expectant, hcalls]
  exact h

theorem Expectant.mono (h : s.Expectant P c) (hPQ : ∀ shot, P shot → Q shot) :
    s.Expectant Q c := by
  obtain ⟨call, hcall, htarget, hstatus⟩ := h
  exact ⟨call, hcall, htarget, hstatus.mono hPQ⟩

theorem Expectant.onCall_of_ne (h : s.Expectant P c) (hne : n ≠ c) (f : Call → Call) :
    (s.onCall n f).Expectant P c := by
  obtain ⟨call, hcall, htarget, hstatus⟩ := h
  exact ⟨call, by rw [calls_onCall, if_neg hne, hcall], htarget, hstatus⟩

theorem Expectant.onCall (h : s.Expectant P c) {f : Call → Call}
    (hf : ∀ call, s.calls[n]? = some call → call.target = .snapshot → call.status.Expectant P →
      (f call).target = .snapshot ∧ (f call).status.Expectant P) :
    (s.onCall n f).Expectant P c := by
  by_cases hn : n = c
  · subst hn
    obtain ⟨call, hcall, htarget, hstatus⟩ := h
    obtain ⟨htarget', hstatus'⟩ := hf call hcall htarget hstatus
    exact ⟨f call, by rw [calls_onCall, if_pos rfl, hcall]; rfl, htarget', hstatus'⟩
  · exact h.onCall_of_ne hn f

theorem Expectant.receive (h : s.Expectant P c) {news : Slot Answer}
    (hnews : news = .dropped ∨ ∃ shot, P shot ∧ news = .full (.snapshot shot)) :
    (s.onCall n (·.receive news)).Expectant P c :=
  h.onCall fun _ _ htarget hstatus =>
    ⟨Call.target_receive.trans htarget, Call.expectant_receive hstatus hnews⟩

theorem Expectant.refuse (h : s.Expectant P c) :
    (s.onCall n (·.refuse .snapshotNotSent)).Expectant P c :=
  h.onCall fun call _ htarget hstatus =>
    ⟨(call.target_refuse _).trans htarget, Call.expectant_refuse hstatus⟩

theorem Expectant.foldl {α : Type} {g : Cluster → α → Cluster} {as : List α}
    (h : s.Expectant P c)
    (hg : ∀ (u : Cluster), ∀ a ∈ as, u.Expectant P c → (g u a).Expectant P c) :
    (as.foldl g s).Expectant P c := by
  induction as generalizing s with
  | nil => exact h
  | cons a rest ih =>
    exact ih (hg s a List.mem_cons_self h) fun u b hb => hg u b (List.mem_cons_of_mem a hb)

/-- All that may be said to a snapshot call is that no answer will come. -/
theorem Expectant.tell (h : s.Expectant P c) {fates : List (Requester × Fate)}
    (hfates : ∀ f, fates.lookup (.caller c) = some f → f = .discarded) :
    (s.tell fates).Expectant P c := by
  obtain ⟨call, hcall, htarget, hstatus⟩ := h
  refine ⟨call.hear (fates.lookup (.caller c)), by rw [calls_tell, hcall]; rfl, ?_⟩
  cases hf : fates.lookup (.caller c) with
  | none => exact ⟨htarget, hstatus⟩
  | some f =>
    obtain rfl := hfates f hf
    exact ⟨Call.target_receive.trans htarget, Call.expectant_receive hstatus (Or.inl rfl)⟩

theorem Expectant.dropWaiters (h : s.Expectant P c) : s.dropWaiters.Expectant P c := by
  rw [dropWaiters_eq_tell]
  exact h.tell fun f hf => fate_of_lookup hf

/-- The store knows call `c` at most as one that asks for a snapshot. -/
structure Unfiled (s : Cluster) (c : Nat) : Prop where
  asked : ∀ r, .request r ∈ s.keeper.inbox.entries → r.who ≠ .caller c
  parked : ∀ k, s.keeper.store.waiter k ≠ some (.caller c)

theorem Unfiled.step (h : s.Unfiled c) (hc : c < s.calls.length)
    (hstep : s.step l = some (t, now)) : t.Unfiled c := by
  have tends := tends_step hstep
  suffices hknown : (∀ r, .request r ∈ t.keeper.inbox.entries → r.who ≠ .caller c) ∧
      ∀ k, t.keeper.store.waiter k ≠ some (.caller c) from ⟨hknown.1, hknown.2⟩
  generalize t.keeper = k at tends
  cases tends with
  | kept => exact ⟨h.asked, h.parked⟩
  | closed => exact ⟨h.asked, h.parked⟩
  | sent command _ hposts =>
    refine ⟨fun r hr => ?_, h.parked⟩
    rw [entries_send] at hr
    rcases List.mem_append.mp hr with hr | hr
    · exact h.asked r hr
    · obtain rfl := List.mem_singleton.mp hr
      intro hself
      -- the number of a new call is that of no call before it
      rcases hposts with hsender | ⟨i, hsender⟩
      · have hnew := Requester.caller.inj (hself.symm.trans hsender)
        omega
      · cases hself.symm.trans hsender
  | withdrew who =>
    exact ⟨fun r hr => h.asked r ((entries_withdraw _ _).1.subset hr), h.parked⟩
  | decided r rest _ hentries =>
    have hasked := h.asked
    rw [hentries] at hasked
    refine ⟨fun r' hr' => hasked r' (List.mem_cons_of_mem _ hr'), fun key hwaits => ?_⟩
    rcases Store.waiter_cases hwaits with ⟨hbefore, _⟩ | ⟨_, hself, _⟩
    · exact h.parked key hbefore
    · exact hasked r List.mem_cons_self hself
  | shown d rest _ hentries =>
    have hasked := h.asked
    rw [hentries] at hasked
    exact ⟨fun r hr => hasked r (List.mem_cons_of_mem _ hr), h.parked⟩
  | stopped => exact ⟨by simp [Keeper.halt, Inbox.clear], by simp [Keeper.halt, Store.waiter]⟩

/-! ## One step -/

theorem Expectant.serve (h : s.Expectant P c) (unfiled : s.Unfiled c)
    (hnow : P s.keeper.store.snapshot) (hserve : s.serve = some (t, e)) : t.Expectant P c := by
  obtain ⟨_, rest, ⟨r, hentries, rfl, _⟩ | ⟨d, _, rfl, _⟩⟩ := serve_cases hserve
  · refine Expectant.tell (h.of_calls (calls_stored s _ _)) fun f hf => ?_
    have hwho := unfiled.asked r (by rw [hentries]; exact List.mem_cons_self)
    cases hf.symm.trans (Store.unheard_of_unconcerned hwho (unfiled.parked r.key))
  · exact Expectant.receive (h.of_calls (calls_stored s _ _)) (Or.inr ⟨_, hnow, rfl⟩)

/-- The caller of a job is not waiting for a snapshot. -/
theorem Expectant.ne_job (h : s.Expectant P c) (onRecord : s.OnRecord) {i : Nat} {m : Member}
    {job : Job} (hm : s.members[i]? = some m) (hjob : job ∈ m.jobs) : job.call ≠ c := by
  rintro rfl
  obtain ⟨call, hcall, htarget, _⟩ := h
  obtain ⟨call', manner, hcall', htarget', _⟩ := onRecord.placed i m job hm hjob
  obtain rfl := Option.some.inj (hcall.symm.trans hcall')
  cases htarget.symm.trans htarget'

theorem Expectant.begin (h : s.Expectant P c) (onRecord : s.OnRecord) {i : Nat}
    (hbegin : s.begin i = some (t, e)) : t.Expectant P c := by
  obtain ⟨m, job, rest, cache, hm, _, _, hentries, hcases⟩ := begin_cases hbegin
  have hne : job.call ≠ c := h.ne_job onRecord hm <| Member.mem_jobs.mpr <| Or.inr <| by
    rw [hentries]
    exact List.mem_cons_self
  obtain ⟨r, _, rfl, _⟩ | ⟨_, _, rfl, _⟩ | ⟨_, _, last, r, _, rfl, _⟩ := hcases
  · exact Expectant.onCall_of_ne (h.of_calls rfl) hne _
  · exact h.of_calls rfl
  · exact Expectant.onCall_of_ne (h.of_calls rfl) hne _

theorem Expectant.resume (h : s.Expectant P c) (onRecord : s.OnRecord) {i : Nat}
    (hresume : s.resume i = some (t, e)) : t.Expectant P c := by
  obtain ⟨m, job, slot, _, _, _, hm, hwork, _, _, rfl, _⟩ := resume_cases hresume
  have hne := h.ne_job onRecord hm (Member.mem_jobs.mpr (Or.inl ⟨slot, hwork⟩))
  exact Expectant.onCall_of_ne (h.of_calls rfl) hne _

/-- A caller that takes note ends with what it has heard. -/
theorem Expectant.finish (h : s.Expectant P c) (hfinish : s.finish n = some (t, e)) :
    t.Expectant P c := by
  obtain ⟨call, o, hcall, ho, rfl, _⟩ := finish_cases hfinish
  refine h.onCall fun call' hcall' htarget hstatus => ⟨htarget, ?_⟩
  obtain rfl := Option.some.inj (hcall.symm.trans hcall')
  obtain ⟨target, key, status⟩ := call
  obtain rfl : target = .snapshot := htarget
  cases hstatus with
  | waiting => cases ho
  | shown shot seen =>
    obtain rfl := Option.some.inj ho
    exact .answered shot seen
  | dropped =>
    obtain rfl := Option.some.inj ho
    exact .failed _ (Or.inr rfl)
  | answered => cases ho
  | failed => cases ho

theorem Expectant.fire (h : s.Expectant P c) (onRecord : s.OnRecord) (unfiled : s.Unfiled c)
    (hnow : P s.keeper.store.snapshot) {mv : Move} (hfire : s.fire mv = some (t, e)) :
    t.Expectant P c := by
  cases mv with
  | serve => exact h.serve unfiled hnow hfire
  | begin i => exact h.begin onRecord hfire
  | resume i => exact h.resume onRecord hfire
  | leave i =>
    obtain ⟨_, _, _, _, _, _, rfl, _⟩ := leave_cases hfire
    exact h.of_calls rfl
  | retire =>
    obtain ⟨_, _, _, rfl, _⟩ := retire_cases hfire
    exact h.dropWaiters.of_calls rfl
  | finish d => exact h.finish hfire

theorem Expectant.enter (h : s.Expectant P c) {target : Target} {k : Key} {status : Status}
    (hcalls : t.calls = (s.enter target k status).calls) : t.Expectant P c := by
  obtain ⟨call, hcall, htarget, hstatus⟩ := h
  exact ⟨call, by rw [hcalls, enter_old hcall], htarget, hstatus⟩

theorem Expectant.called (h : s.Expectant P c) {target : Target} {k : Key}
    (hcall : s.call target k = some t) : t.Expectant P c := by
  cases target with
  | client i act manner =>
    obtain ⟨_, _, _, ⟨_, rfl⟩ | ⟨_, rfl⟩⟩ := call_client_cases hcall
    · exact h.enter rfl
    · exact h.enter rfl
  | store op =>
    obtain ⟨_, ⟨_, rfl⟩ | ⟨_, rfl⟩⟩ := call_store_cases hcall
    · exact h.enter rfl
    · exact h.enter rfl
  | snapshot =>
    obtain ⟨_, ⟨_, rfl⟩ | ⟨_, rfl⟩⟩ := call_snapshot_cases hcall
    · exact h.enter rfl
    · exact h.enter rfl

/-- Nobody holds a call for a snapshot, so a look at a held call or a wait for one is about
another. -/
theorem Expectant.ne_held (h : s.Expectant P c) {call : Call} {slot : Slot Answer}
    (hcall : s.calls[n]? = some call) (hheld : call.status = .pending true slot) : n ≠ c := by
  rintro rfl
  obtain ⟨call', hcall', _, hstatus⟩ := h
  obtain rfl := Option.some.inj (hcall.symm.trans hcall')
  rw [hheld] at hstatus
  cases hstatus

theorem Expectant.cancel (h : s.Expectant P c) (hne : n ≠ c) : (s.cancel n).Expectant P c := by
  obtain heq | ⟨_, ⟨_, heq⟩ | heq⟩ := cancel_cases s n
  · rw [heq]
    exact h
  · rw [heq]
    exact Expectant.onCall_of_ne (h.of_calls rfl) hne _
  · rw [heq]
    exact Expectant.onCall_of_ne (h.of_calls rfl) hne _

theorem Expectant.killClient (h : s.Expectant P c) (onRecord : s.OnRecord) {i : Nat}
    (hkill : s.killClient i = some t) : t.Expectant P c := by
  obtain ⟨m, hm, ⟨hrun, _⟩ | ⟨_, rfl⟩⟩ := killClient_cases hkill
  · have hlost : ∀ job ∈ m.work.toList.map (·.job) ++ m.inbox.queued, job.call ≠ c := by
      intro job hjob
      refine h.ne_job onRecord hm ?_
      rw [Member.jobs]
      rcases List.mem_append.mp hjob with hjob | hjob
      · exact List.mem_append_left _ hjob
      · exact List.mem_append_right _ (List.mem_of_mem_take hjob)
    have hrefused : ∀ job ∈ m.inbox.blocked, job.call ≠ c := by
      intro job hjob
      exact h.ne_job onRecord hm
        (Member.mem_jobs.mpr (Or.inr (List.mem_of_mem_drop hjob)))
    refine Expectant.of_calls ?_ (calls_killClient hkill hm hrun)
    refine Expectant.foldl (Expectant.foldl h ?_) ?_
    · exact fun u job hjob hu => hu.onCall_of_ne (hlost job hjob) _
    · exact fun u job hjob hu => hu.onCall_of_ne (hrefused job hjob) _
  · exact h

/-- Outside the queue it is turned away, inside it is lost. -/
theorem Expectant.killStore (h : s.Expectant P c) (unfiled : s.Unfiled c) :
    s.killStore.Expectant P c := by
  rw [Cluster.killStore]
  split
  · refine Expectant.of_calls (s := s.keeper.inbox.blocked.foldl turnAway
      (s.keeper.inbox.queued.foldl lose s.dropWaiters)) ?_ rfl
    refine Expectant.foldl (Expectant.foldl h.dropWaiters ?_) ?_
    · intro u command _ hu
      rw [lose_eq_tell]
      refine hu.tell fun f hf => ?_
      simp only [List.lookup_cons, List.lookup_nil] at hf
      split at hf
      · exact (Option.some.inj hf).symm
      · cases hf
    · rintro u (⟨op, key, i | d⟩ | d) hmem hu
      · exact hu.of_calls rfl
      · have hwho := unfiled.asked _ (List.mem_of_mem_drop hmem)
        exact hu.onCall_of_ne (by rintro rfl; exact hwho rfl) _
      · exact hu.refuse
  · exact h

theorem Expectant.perform (h : s.Expectant P c) (onRecord : s.OnRecord) (unfiled : s.Unfiled c)
    {a : Act} (hwaits : a ≠ .cancel c) (hact : s.perform a = some t) : t.Expectant P c := by
  cases a with
  | call target k => exact h.called hact
  | take d =>
    obtain ⟨call, hcall, ⟨_, hheld, rfl⟩ | ⟨hheld, rfl⟩ | rfl⟩ := take_held_cases hact
    · exact h.onCall_of_ne (h.ne_held hcall hheld) _
    · exact h.onCall_of_ne (h.ne_held hcall hheld) _
    · exact h
  | wait d =>
    obtain ⟨call, slot, hcall, hheld, rfl⟩ := wait_held_cases hact
    exact h.onCall_of_ne (h.ne_held hcall hheld) _
  | cancel d =>
    obtain rfl := Option.some.inj hact
    exact h.cancel fun hd => hwaits (hd ▸ rfl)
  | closeClient i =>
    obtain rfl := closeClient_cases hact
    exact h.of_calls rfl
  | closeStore =>
    obtain rfl := Option.some.inj hact
    exact h.of_calls rfl
  | killClient i => exact h.killClient onRecord hact
  | killStore =>
    obtain rfl := Option.some.inj hact
    exact h.killStore unfiled

/-- What a snapshot call has heard after a step it had heard before, or it is the snapshot of the
store as it was. -/
theorem Expectant.step (h : s.Expectant P c) (onRecord : s.OnRecord) (unfiled : s.Unfiled c)
    (hnow : P s.keeper.store.snapshot) (hwaits : l ≠ .act (.cancel c))
    (hstep : s.step l = some (t, now)) : t.Expectant P c := by
  cases l with
  | act a =>
    refine h.perform onRecord unfiled (fun ha => hwaits (ha ▸ rfl)) (step_act hstep).1
  | move mv =>
    obtain ⟨e, hfire, _⟩ := step_move hstep
    exact h.fire onRecord unfiled hnow hfire

/-! ## Asking -/

/-- Whoever holds the store's handle can ask. -/
theorem exists_call_snapshot (k : Key) (hhandle : s.keeper.handle = true) :
    ∃ t, s.call .snapshot k = some t := by
  cases hrun : s.keeper.running with
  | true => exact ⟨_, by simp [Cluster.call, hhandle, hrun]; rfl⟩
  | false => exact ⟨_, by simp [Cluster.call, hhandle, hrun]; rfl⟩

/-- A new call for a snapshot has heard nothing, or it could not be sent. -/
theorem expectant_call {k : Key} (P : Snapshot → Prop) (h : s.call .snapshot k = some t) :
    t.Expectant P s.calls.length := by
  obtain ⟨_, ⟨_, rfl⟩ | ⟨_, rfl⟩⟩ := call_snapshot_cases h
  · exact ⟨_, s.enter_new .snapshot k _, rfl, .waiting⟩
  · exact ⟨_, s.enter_new .snapshot k _, rfl, .failed _ (Or.inl rfl)⟩

theorem unfiled_call {k : Key} (onRecord : s.OnRecord) (h : s.call .snapshot k = some t) :
    t.Unfiled s.calls.length := by
  have hunknown : ¬ s.Lists (.caller s.calls.length) := by
    intro hlists
    obtain ⟨call, hcall, _⟩ := onRecord.callers _ hlists
    simp at hcall
  have hasked : ∀ r, .request r ∈ s.keeper.inbox.entries → r.who ≠ .caller s.calls.length :=
    fun r hr hwho => hunknown (Or.inl ⟨.request r, hr, hwho⟩)
  have hparked : ∀ k, s.keeper.store.waiter k ≠ some (.caller s.calls.length) :=
    fun k hk => hunknown (Or.inr ⟨k, hk⟩)
  obtain ⟨_, ⟨_, rfl⟩ | ⟨_, rfl⟩⟩ := call_snapshot_cases h
  · refine ⟨fun r hr => ?_, hparked⟩
    rw [entries_send] at hr
    rcases List.mem_append.mp hr with hr | hr
    · exact hasked r hr
    · cases List.mem_singleton.mp hr
  · exact ⟨hasked, hparked⟩

/-! ## Answers -/

section

variable {call : Call} {o : Outcome} (hcall : s.calls[c]? = some call)
  (hended : call.status = .ended o)

include hcall hended

theorem ended_onCall {call' : Call} (f : Call → Call) (hcall' : s.calls[n]? = some call')
    (hpending : call'.status.isPending = true) : (s.onCall n f).calls[c]? = some call := by
  have hne : n ≠ c := by
    rintro rfl
    obtain rfl := Option.some.inj (hcall.symm.trans hcall')
    rw [hended] at hpending
    cases hpending
  rw [calls_onCall, if_neg hne, hcall]

theorem Onward.ended (h : s.Onward t) : t.calls[c]? = some call := by
  obtain ⟨⟨target', key', status'⟩, hcall', htarget, hkey, hfollows⟩ := h.after hcall
  have hdone : call.status.isPending = false := by
    rw [hended]
    rfl
  obtain ⟨target, key, status⟩ := call
  obtain rfl : target' = target := htarget
  obtain rfl : key' = key := hkey
  obtain rfl : status' = status := hfollows.eq_of_done hdone
  exact hcall'

/-- What has ended stays as it is, whatever is done to the cluster. -/
theorem ended_step (hstep : s.step l = some (t, now)) : t.calls[c]? = some call := by
  cases l with
  | move mv =>
    obtain ⟨e, hfire, _⟩ := step_move hstep
    exact (onward_fire hfire).ended hcall hended
  | act a =>
    have hact := (step_act hstep).1
    cases a with
    | call target k =>
      obtain ⟨_, _, _, _, hcalls, _⟩ | ⟨hno, _⟩ := ages_step hstep
      · rw [hcalls, List.getElem?_append_left (List.getElem?_eq_some_iff.mp hcall).1, hcall]
      · exact absurd rfl (hno target k)
    | take d =>
      obtain ⟨_, hcall', ⟨_, hheld, rfl⟩ | ⟨hheld, rfl⟩ | rfl⟩ := take_held_cases hact
      · exact ended_onCall hcall hended _ hcall' (by rw [hheld]; rfl)
      · exact ended_onCall hcall hended _ hcall' (by rw [hheld]; rfl)
      · exact hcall
    | wait d =>
      obtain ⟨_, _, hcall', hheld, rfl⟩ := wait_held_cases hact
      exact ended_onCall hcall hended _ hcall' (by rw [hheld]; rfl)
    | cancel d =>
      obtain rfl := Option.some.inj hact
      obtain heq | ⟨call', hcall', hpending, ⟨_, _, _, _, heq⟩ | ⟨_, heq⟩⟩ :=
        cancel_target_cases s d
      · rw [heq]
        exact hcall
      · rw [heq]
        exact ended_onCall hcall hended _ hcall' hpending
      · rw [heq]
        exact ended_onCall hcall hended _ hcall' hpending
    | closeClient i =>
      obtain rfl := closeClient_cases hact
      exact hcall
    | closeStore =>
      obtain rfl := Option.some.inj hact
      exact hcall
    | killClient i => exact (onward_killClient hact).ended hcall hended
    | killStore =>
      obtain rfl := Option.some.inj hact
      exact (onward_killStore s).ended hcall hended

end

theorem ended?_step (h : (s.ended? c).isSome = true) (hstep : s.step l = some (t, now)) :
    (t.ended? c).isSome = true := by
  cases hcall : s.calls[c]? with
  | none => simp [ended?, hcall] at h
  | some call =>
    cases hstatus : call.status with
    | ended o => simp [ended?, ended_step hcall hstatus hstep, hstatus]
    | _ => simp [ended?, hcall, hstatus] at h

/-- At rest a snapshot call has ended. -/
theorem Expectant.ended_of_atRest (h : s.Expectant P c) (onRecord : s.OnRecord)
    (unfiled : s.Unfiled c) (hrest : s.atRest = true) : (s.ended? c).isSome := by
  obtain ⟨call, hcall, htarget, hstatus⟩ := h
  have hstuck : ∀ slot, call.status = .pending false slot → False := by
    intro slot hpending
    obtain rfl := empty_of_atRest hrest hcall hpending
    have hstore : call.target.AtStore := by
      rw [htarget]
      exact nofun
    obtain ⟨hrun, ⟨command, hmem, _⟩ | ⟨k, hwaits⟩⟩ :=
      onRecord.minded (.caller c) ⟨call, hcall, hstore, false, hpending⟩
    · rw [entries_of_serve hrun (fire_of_atRest hrest .serve)] at hmem
      cases hmem
    · exact unfiled.parked k hwaits
  rw [Cluster.ended?, hcall]
  generalize hs : call.status = status at hstatus hstuck
  cases hstatus with
  | waiting => exact absurd rfl (hstuck .empty)
  | shown shot seen => exact absurd rfl (hstuck _)
  | dropped => exact absurd rfl (hstuck _)
  | answered shot seen => simp [hs]
  | failed f hf => simp [hs]

end Cluster

end Custody
