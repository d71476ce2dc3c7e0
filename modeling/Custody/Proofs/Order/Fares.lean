import Custody.Proofs.Stop.Steps
import Custody.Proofs.Stop.Desertion

/-!
# How one client fares

A step of a cluster as one client sees it: the client, the requests it has sent to the store, and
what the store holds. Most steps are somebody else's and leave all of these alone. This is the one
inversion of a step for everything that concerns a single client.
-/

namespace Custody

/-- An event that is not about client `i`, and no decision of the store. -/
def Event.Elsewhere (i : Nat) : Event → Prop
  | served _ _ => False
  | asked j _ => j ≠ i
  | answered j _ _ => j ≠ i
  | _ => True

theorem repliesOf_of_elsewhere {es : List Event} {i : Nat} (h : ∀ e ∈ es, e.Elsewhere i) :
    repliesOf es i = [] := by
  rw [repliesOf, List.filterMap_eq_nil_iff]
  intro e he
  cases e with
  | answered j job r => exact if_neg (h _ he)
  | _ => rfl

/-- Nothing is taken back if nothing that could be is outside. -/
theorem Inbox.withdraw_eq_self {α : Type} {b : Inbox α} {p : α → Bool}
    (h : ∀ a ∈ b.blocked, p a = false) : b.withdraw p = b := by
  have hkeep : b.blocked.filter (fun a => !p a) = b.blocked := by
    rw [List.filter_eq_self]
    intro a ha
    rw [h a ha]
    rfl
  rw [Inbox.withdraw, hkeep, Inbox.queued, Inbox.blocked, List.take_append_drop]

namespace Cluster

/-- The requests of `x` on their way to the store. -/
def sentBy (s : Cluster) (x : Requester) : List (Request Requester) :=
  s.requests.filter fun r => r.who == x

/-- The label is not about the jobs of client `i`, which is `m`. -/
def Spares (s : Cluster) (i : Nat) (m : Member) : Label → Prop
  | .act (.call (.client j _ _) _) => j = i → m.running = false ∧ m.handle = true
  | .act (.cancel c) => ∀ call a manner, s.calls[c]? = some call → call.isPending = true →
      call.target ≠ .client i a manner
  | .act (.killClient j) => j = i → m.running = false
  | _ => True

/-- The store is as it was, and it has the same requests of client `i` before it. -/
structure Still (s t : Cluster) (i : Nat) : Prop where
  running : t.keeper.running = s.keeper.running
  store : t.keeper.store = s.keeper.store
  sent : t.sentBy (.client i) = s.sentBy (.client i)

/-- What a step from `s` to `t` makes of client `i`, which was `m`. -/
inductive Fares (s t : Cluster) (i : Nat) (m : Member) : Label → List Event → Member → Prop where
  | kept {l : Label} {es : List Event} (handle : Bool) (still : s.Still t i)
      (hspares : s.Spares i m l) (hhandle : handle = true → m.handle = true)
      (helse : ∀ e ∈ es, e.Elsewhere i) : Fares s t i m l es { m with handle }
  | called (a : Action) (manner : Manner) (k : Key) (still : s.Still t i)
      (hhandle : m.handle = true) (hrun : m.running = true) :
      Fares s t i m (.act (.call (.client i a manner) k)) []
        { m with inbox := m.inbox.push ⟨s.calls.length, a, k⟩ }
  | withdrew (c : Nat) (call : Call) (a : Action) (manner : Manner) (still : s.Still t i)
      (hcall : s.calls[c]? = some call) (hpending : call.isPending = true)
      (htarget : call.target = .client i a manner) :
      Fares s t i m (.act (.cancel c)) []
        { m with inbox := m.inbox.withdraw fun job => job.call == c }
  | served (r : Request Requester) (hrun : s.keeper.running = true)
      (hqueue : s.requests = r :: t.requests) (hstays : t.keeper.running = true)
      (hstore : t.keeper.store = (s.keeper.store.handle s.isPresent r).1) :
      Fares s t i m (.move .serve) [.served r (s.keeper.store.handle s.isPresent r).2]
        (m.hear ((s.keeper.store.handle s.isPresent r).2.fateOf r.who (.client i)))
  | settled (job : Job) (rest : List Job) (cache : Cache) (r : ClientReply)
      (still : s.Still t i) (hrun : m.running = true) (hidle : m.work = none)
      (hentries : m.inbox.entries = job :: rest)
      (hstart : m.cache.start job.key job.action = (cache, some r)) :
      Fares s t i m (.move (.begin i)) [.answered i job r] (m.take cache rest)
  | asked (job : Job) (rest : List Job) (cache : Cache) (hrun : m.running = true)
      (hidle : m.work = none) (hentries : m.inbox.entries = job :: rest)
      (hstart : m.cache.start job.key job.action = (cache, none))
      (hkeeper : s.keeper.running = true) (hstays : t.keeper.running = true)
      (hstore : t.keeper.store = s.keeper.store)
      (hsent : t.sentBy (.client i) =
        s.sentBy (.client i) ++ [⟨job.action.operation, job.key, .client i⟩]) :
      Fares s t i m (.move (.begin i)) [.asked i job]
        { m.take cache rest with work := some ⟨job, .empty⟩ }
  | refused (job : Job) (rest : List Job) (cache last : Cache) (r : ClientReply)
      (still : s.Still t i) (hrun : m.running = true) (hidle : m.work = none)
      (hentries : m.inbox.entries = job :: rest)
      (hstart : m.cache.start job.key job.action = (cache, none))
      (hkeeper : s.keeper.running = false)
      (hfinish : cache.finish job.key job.action none = (last, r)) :
      Fares s t i m (.move (.begin i)) [.answered i job r] { m.take last rest with work := none }
  | finished (job : Job) (slot : Slot StoreReply) (answer : Option StoreReply) (cache : Cache)
      (r : ClientReply) (still : s.Still t i) (hwork : m.work = some ⟨job, slot⟩)
      (hanswer : slot.answer? = some answer)
      (hfinish : m.cache.finish job.key job.action answer = (cache, r)) :
      Fares s t i m (.move (.resume i)) [.answered i job r] { m with cache, work := none }
  | left (still : s.Still t i) (hidle : m.work = none) (hentries : m.inbox.entries = [])
      (hhandle : m.handle = false) : Fares s t i m (.move (.leave i)) [.left i] m.halt
  | killed (hrun : m.running = true) (hstays : t.keeper.running = s.keeper.running)
      (hstore : t.keeper.store = s.keeper.store)
      (hsent : (t.sentBy (.client i)).Sublist (s.sentBy (.client i))) :
      Fares s t i m (.act (.killClient i)) [] m.halt
  | bereft {l : Label} {es : List Event} (f : Option Fate) (k : Keeper) (hspares : s.Spares i m l)
      (hkeeper : t.keeper = k.halt) (helse : ∀ e ∈ es, e.Elsewhere i) :
      Fares s t i m l es (m.hear f)

variable {s t u : Cluster} {l : Label} {es : List Event} {e : Event} {i j : Nat} {m : Member}

/-! ## What leaves the store alone -/

theorem Still.congr (still : s.Still t i) (h : u.keeper = t.keeper) : s.Still u i := by
  refine ⟨by rw [h, still.running], by rw [h, still.store], ?_⟩
  rw [← still.sent, sentBy, sentBy, requests, requests, h]

theorem Still.of_keeper (h : t.keeper = s.keeper) : s.Still t i :=
  Still.congr ⟨rfl, rfl, rfl⟩ h

/-- A message of a caller is not a request of a client. -/
theorem still_send {c : Command} {id : Nat} (hsender : c.sender = .caller id) :
    s.Still (s.send c) i where
  running := rfl
  store := rfl
  sent := by
    cases c with
    | request r =>
      have hwho : (r.who == .client i) = false := by
        rw [show r.who = .caller id from hsender]
        rfl
      simp [sentBy, requests, Command.request?, hwho]
    | snapshot c => simp [sentBy, requests, Command.request?]

/-- What somebody else takes back was not sent by `x`. -/
theorem sentBy_withdraw {who x : Requester} (hne : who ≠ x) :
    (s.withdraw who).sentBy x = s.sentBy x := by
  have hother : ∀ l : List Command,
      ((l.filter fun c => !(c.sender == who)).filterMap Command.request?).filter
        (fun r => r.who == x) = (l.filterMap Command.request?).filter fun r => r.who == x := by
    intro l
    rw [List.filterMap_filter, List.filter_filterMap, List.filter_filterMap]
    refine List.filterMap_congr fun c _ => ?_
    cases c with
    | snapshot id => cases h : (Command.snapshot id).sender == who <;> rfl
    | request r =>
      by_cases hr : r.who = who
      · have hx : ((some r).filter fun r => r.who == x) = none := by
          rw [Option.filter_some, if_neg (by simpa [hr] using hne)]
        simp [Command.sender, Command.request?, hr, hx]
      · simp [Command.sender, Command.request?, hr]
  have hsplit : s.keeper.inbox.entries = s.keeper.inbox.queued ++ s.keeper.inbox.blocked :=
    (List.take_append_drop _ _).symm
  rw [sentBy, sentBy, requests, requests, hsplit]
  change ((s.keeper.inbox.queued ++ s.keeper.inbox.blocked.filter _).filterMap _).filter _ = _
  rw [List.filterMap_append, List.filter_append, List.filterMap_append, List.filter_append, hother]

theorem still_withdraw {who : Requester} (hne : who ≠ .client i) : s.Still (s.withdraw who) i :=
  ⟨rfl, rfl, sentBy_withdraw hne⟩

theorem sentBy_withdraw_sublist (who x : Requester) :
    ((s.withdraw who).sentBy x).Sublist (s.sentBy x) :=
  (requests_withdraw s who).1.filter _

/-! ## The step -/

/-- A step that leaves the client and its surroundings alone. -/
theorem Fares.same (hmember : t.members[i]? = some m) (still : s.Still t i)
    (hspares : s.Spares i m l) (helse : ∀ e ∈ es, e.Elsewhere i) :
    ∃ m', t.members[i]? = some m' ∧ s.Fares t i m l es m' :=
  ⟨m, hmember, .kept m.handle still hspares (fun h => h) helse⟩

theorem elsewhere_nil : ∀ e ∈ ([] : List Event), e.Elsewhere i := nofun

theorem elsewhere_one (he : e.Elsewhere i) : ∀ e' ∈ [e], e'.Elsewhere i := by
  intro e' he'
  rw [List.mem_singleton.mp he']
  exact he

theorem members_of_other {f : Member → Member} (hij : j ≠ i) (hm : s.members[i]? = some m) :
    (s.onMember j f).members[i]? = some m := by
  rw [members_onMember, if_neg hij, hm]

theorem members_of_same {f : Member → Member} (hm : s.members[i]? = some m) :
    (s.onMember i f).members[i]? = some (f m) := by
  rw [members_onMember, if_pos rfl, hm]
  rfl

variable (hm : s.members[i]? = some m)

include hm

theorem fares_serve (h : s.serve = some (t, e)) :
    ∃ m', t.members[i]? = some m' ∧ s.Fares t i m (.move .serve) [e] m' := by
  obtain ⟨hrun, rest, ⟨r, hentries, rfl, rfl⟩ | ⟨c, hentries, rfl, rfl⟩⟩ := serve_cases h
  · refine ⟨_, ?_, .served r hrun ?_ ?_ ?_⟩
    · rw [members_tell, members_stored, hm]
      rfl
    · simp [requests, hentries, Command.request?, stored]
    · rw [keeper_tell]
      exact hrun
    · rw [keeper_tell]
      rfl
  · refine Fares.same hm ⟨rfl, rfl, ?_⟩ trivial (elsewhere_one trivial)
    rw [sentBy, sentBy, requests, requests, hentries]
    rfl

theorem fares_begin (h : s.begin j = some (t, e)) :
    ∃ m', t.members[i]? = some m' ∧ s.Fares t i m (.move (.begin j)) [e] m' := by
  obtain ⟨n, job, rest, cache, hn, hrun, hidle, hentries, hcases⟩ := begin_cases h
  by_cases hij : j = i
  · subst hij
    obtain rfl := Option.some.inj (hn.symm.trans hm)
    obtain ⟨r, hstart, rfl, rfl⟩ | ⟨hstart, hkeeper, rfl, rfl⟩ |
      ⟨hstart, hkeeper, last, r, hfinish, rfl, rfl⟩ := hcases
    · exact ⟨_, members_of_same hm,
        .settled job rest cache r (.of_keeper rfl) hrun hidle hentries hstart⟩
    · refine ⟨_, members_of_same hm,
        .asked job rest cache hrun hidle hentries hstart hkeeper hkeeper rfl ?_⟩
      simp [sentBy, requests, Command.request?]
    · exact ⟨_, members_of_same hm,
        .refused job rest cache last r (.of_keeper rfl) hrun hidle hentries hstart hkeeper hfinish⟩
  · obtain ⟨r, _, rfl, rfl⟩ | ⟨_, _, rfl, rfl⟩ | ⟨_, _, last, r, _, rfl, rfl⟩ := hcases
    · exact Fares.same (members_of_other hij hm) (.of_keeper rfl) trivial (elsewhere_one hij)
    · refine Fares.same (members_of_other hij hm) ⟨rfl, rfl, ?_⟩ trivial (elsewhere_one hij)
      have hwho : ((Requester.client j) == .client i) = false := by simpa using hij
      simp [sentBy, requests, Command.request?, hwho]
    · exact Fares.same (members_of_other hij hm) (.of_keeper rfl) trivial (elsewhere_one hij)

theorem fares_resume (h : s.resume j = some (t, e)) :
    ∃ m', t.members[i]? = some m' ∧ s.Fares t i m (.move (.resume j)) [e] m' := by
  obtain ⟨n, job, slot, answer, cache, r, hn, hwork, hanswer, hfinish, rfl, rfl⟩ := resume_cases h
  by_cases hij : j = i
  · subst hij
    obtain rfl := Option.some.inj (hn.symm.trans hm)
    exact ⟨_, members_of_same hm,
      .finished job slot answer cache r (.of_keeper rfl) hwork hanswer hfinish⟩
  · exact Fares.same (members_of_other hij hm) (.of_keeper rfl) trivial (elsewhere_one hij)

theorem fares_leave (h : s.leave j = some (t, e)) :
    ∃ m', t.members[i]? = some m' ∧ s.Fares t i m (.move (.leave j)) [e] m' := by
  obtain ⟨n, hn, _, hidle, hentries, hreaches, rfl, rfl⟩ := leave_cases h
  by_cases hij : j = i
  · subst hij
    obtain rfl := Option.some.inj (hn.symm.trans hm)
    simp only [reaches, Bool.or_eq_false_iff] at hreaches
    exact ⟨_, members_of_same hm, .left (.of_keeper rfl) hidle hentries hreaches.1⟩
  · exact Fares.same (members_of_other hij hm) (.of_keeper rfl) trivial (elsewhere_one trivial)

theorem fares_retire (h : s.retire = some (t, e)) :
    ∃ m', t.members[i]? = some m' ∧ s.Fares t i m (.move .retire) [e] m' := by
  obtain ⟨_, _, _, rfl, rfl⟩ := retire_cases h
  have hmember : s.dropWaiters.members[i]? = some (m.hear ((s.keeper.store.waiters.toList.map
      fun w => (w.2, Fate.discarded)).lookup (.client i))) := by
    rw [dropWaiters_eq_tell, members_tell, hm]
    rfl
  exact ⟨_, hmember, .bereft _ _ trivial rfl (elsewhere_one trivial)⟩

theorem fares_fire {mv : Move} (h : s.fire mv = some (t, e)) :
    ∃ m', t.members[i]? = some m' ∧ s.Fares t i m (.move mv) [e] m' := by
  cases mv with
  | serve => exact fares_serve hm h
  | begin j => exact fares_begin hm h
  | resume j => exact fares_resume hm h
  | leave j => exact fares_leave hm h
  | retire => exact fares_retire hm h
  | finish c =>
    obtain ⟨_, _, _, _, rfl, rfl⟩ := finish_cases h
    exact Fares.same hm (.of_keeper rfl) trivial (elsewhere_one trivial)

theorem fares_call {target : Target} {k : Key} (h : s.call target k = some t) :
    ∃ m', t.members[i]? = some m' ∧ s.Fares t i m (.act (.call target k)) [] m' := by
  cases target with
  | client j a manner =>
    obtain ⟨n, hn, hhandle, hcases⟩ := call_client_cases h
    by_cases hij : j = i
    · subst hij
      obtain rfl := Option.some.inj (hn.symm.trans hm)
      obtain ⟨hrun, rfl⟩ | ⟨hrun, rfl⟩ := hcases
      · exact ⟨_, members_of_same hm, .called a manner k (.of_keeper rfl) hhandle hrun⟩
      · exact Fares.same hm (.of_keeper rfl) (fun _ => ⟨hrun, hhandle⟩) elsewhere_nil
    · have hspares : s.Spares i m (.act (.call (.client j a manner) k)) := fun h => absurd h hij
      obtain ⟨_, rfl⟩ | ⟨_, rfl⟩ := hcases
      · exact Fares.same (members_of_other hij hm) (.of_keeper rfl) hspares elsewhere_nil
      · exact Fares.same hm (.of_keeper rfl) hspares elsewhere_nil
  | store op =>
    obtain ⟨_, ⟨_, rfl⟩ | ⟨_, rfl⟩⟩ := call_store_cases h
    · have still : s.Still (s.send (.request ⟨op, k, .caller s.calls.length⟩)) i := still_send rfl
      exact Fares.same hm (still.congr rfl) trivial elsewhere_nil
    · exact Fares.same hm (.of_keeper rfl) trivial elsewhere_nil
  | snapshot =>
    obtain ⟨_, ⟨_, rfl⟩ | ⟨_, rfl⟩⟩ := call_snapshot_cases h
    · have still : s.Still (s.send (.snapshot s.calls.length)) i := still_send rfl
      exact Fares.same hm (still.congr rfl) trivial elsewhere_nil
    · exact Fares.same hm (.of_keeper rfl) trivial elsewhere_nil

theorem fares_cancel (c : Nat) :
    ∃ m', (s.cancel c).members[i]? = some m' ∧
      s.Fares (s.cancel c) i m (.act (.cancel c)) [] m' := by
  obtain heq | ⟨call, hcall, hpending, ⟨j, a, manner, htarget, heq⟩ | ⟨hstore, heq⟩⟩ :=
    cancel_target_cases s c
  · by_cases hours : ∃ call a manner, s.calls[c]? = some call ∧ call.isPending = true ∧
        call.target = .client i a manner
    · obtain ⟨call, a, manner, hcall, hpending, htarget⟩ := hours
      have hnone : (s.cancel c).calls[c]? = some { call with status := .cancelled } := by
        simp [cancel, hcall, hpending, htarget, onCall, withdrawJob, onMember]
      rw [heq, hcall] at hnone
      have hstatus := congrArg Call.status (Option.some.inj hnone)
      rw [Call.isPending, hstatus] at hpending
      cases hpending
    · rw [heq]
      refine Fares.same hm (.of_keeper rfl) ?_ elsewhere_nil
      intro call a manner hcall hpending htarget
      exact hours ⟨call, a, manner, hcall, hpending, htarget⟩
  · rw [heq]
    by_cases hij : j = i
    · subst hij
      exact ⟨_, members_of_same hm,
        .withdrew c call a manner (.of_keeper rfl) hcall hpending htarget⟩
    · refine Fares.same (members_of_other hij hm) (.of_keeper rfl) ?_ elsewhere_nil
      intro call' a' manner' hcall' _ htarget'
      obtain rfl := Option.some.inj (hcall.symm.trans hcall')
      rw [htarget] at htarget'
      exact hij (Target.client.inj htarget').1
  · rw [heq]
    have still : s.Still (s.withdraw (.caller c)) i := still_withdraw (by simp)
    refine Fares.same hm (still.congr rfl) ?_ elsewhere_nil
    intro call' a' manner' hcall' _
    obtain rfl := Option.some.inj (hcall.symm.trans hcall')
    exact hstore i a' manner'

theorem fares_killClient (h : s.killClient j = some t) :
    ∃ m', t.members[i]? = some m' ∧ s.Fares t i m (.act (.killClient j)) [] m' := by
  obtain ⟨n, hn, ⟨hrun, hkeeper, hmembers⟩ | ⟨hrun, rfl⟩⟩ := killClient_cases h
  · have hsame : t.keeper.running = s.keeper.running ∧ t.keeper.store = s.keeper.store ∧
        ∀ x, t.sentBy x = (s.withdraw (.client j)).sentBy x := by
      refine ⟨by rw [hkeeper]; rfl, by rw [hkeeper]; rfl, fun x => ?_⟩
      rw [sentBy, sentBy, requests, requests, hkeeper]
    by_cases hij : j = i
    · subst hij
      obtain rfl := Option.some.inj (hn.symm.trans hm)
      refine ⟨n.halt, ?_, .killed hrun hsame.1 hsame.2.1 ?_⟩
      · rw [hmembers]
        exact members_of_same hm
      · rw [hsame.2.2]
        exact sentBy_withdraw_sublist _ _
    · have hspares : s.Spares i m (.act (.killClient j)) := fun h => absurd h hij
      refine Fares.same ?_ ⟨hsame.1, hsame.2.1, ?_⟩ hspares elsewhere_nil
      · rw [hmembers]
        exact members_of_other hij hm
      · rw [hsame.2.2]
        exact sentBy_withdraw (by simpa using hij)
  · refine Fares.same hm (.of_keeper rfl) ?_ elsewhere_nil
    rintro rfl
    rw [← Option.some.inj (hn.symm.trans hm)]
    exact hrun

theorem fares_killStore :
    ∃ m', s.killStore.members[i]? = some m' ∧
      s.Fares s.killStore i m (.act .killStore) [] m' := by
  by_cases hrun : s.keeper.running = true
  · obtain ⟨m', hm', f, rfl⟩ := after_of_forall₂ (spread_killStore s) hm
    obtain ⟨k, hkeeper⟩ : ∃ k : Keeper, s.killStore.keeper = k.halt := by
      rw [killStore, if_pos hrun]
      exact ⟨_, rfl⟩
    exact ⟨_, hm', .bereft f k trivial hkeeper elsewhere_nil⟩
  · have heq : s.killStore = s := by simp [killStore, hrun]
    rw [heq]
    exact Fares.same hm (.of_keeper rfl) trivial elsewhere_nil

theorem fares_perform {a : Act} (h : s.perform a = some t) :
    ∃ m', t.members[i]? = some m' ∧ s.Fares t i m (.act a) [] m' := by
  cases a with
  | call target k => exact fares_call hm h
  | take c =>
    obtain ⟨f, rfl⟩ := take_cases h
    exact Fares.same hm (.of_keeper rfl) trivial elsewhere_nil
  | wait c =>
    obtain ⟨f, rfl⟩ := wait_cases h
    exact Fares.same hm (.of_keeper rfl) trivial elsewhere_nil
  | cancel c =>
    obtain rfl := Option.some.inj h
    exact fares_cancel hm c
  | closeClient j =>
    obtain rfl := closeClient_cases h
    by_cases hij : j = i
    · subst hij
      exact ⟨_, members_of_same hm, .kept false (.of_keeper rfl) trivial nofun elsewhere_nil⟩
    · exact Fares.same (members_of_other hij hm) (.of_keeper rfl) trivial elsewhere_nil
  | closeStore =>
    obtain rfl := Option.some.inj h
    exact Fares.same hm ⟨rfl, rfl, rfl⟩ trivial elsewhere_nil
  | killClient j => exact fares_killClient hm h
  | killStore =>
    obtain rfl := Option.some.inj h
    exact fares_killStore hm

theorem fares_step (h : s.step l = some (t, es)) :
    ∃ m', t.members[i]? = some m' ∧ s.Fares t i m l es m' := by
  cases l with
  | act a =>
    obtain ⟨hact, rfl⟩ := step_act h
    exact fares_perform hm hact
  | move mv =>
    obtain ⟨e, hfire, rfl⟩ := step_move h
    exact fares_fire hm hfire

omit hm

/-! ## Backwards -/

theorem length_members_fire {mv : Move} (h : s.fire mv = some (t, e)) :
    t.members.length = s.members.length := by
  cases mv with
  | serve =>
    obtain ⟨_, _, ⟨_, _, rfl, _⟩ | ⟨_, _, rfl, _⟩⟩ := serve_cases h
    · exact length_members_tell _ _
    · rfl
  | begin j =>
    obtain ⟨_, _, _, _, _, _, _, _, ⟨_, _, rfl, _⟩ | ⟨_, _, rfl, _⟩ | ⟨_, _, _, _, _, rfl, _⟩⟩ :=
      begin_cases h
    · exact length_members_onMember s j _
    · exact length_members_onMember s j _
    · exact length_members_onMember s j _
  | resume j =>
    obtain ⟨_, _, _, _, _, _, _, _, _, _, rfl, _⟩ := resume_cases h
    exact length_members_onMember s j _
  | leave j =>
    obtain ⟨_, _, _, _, _, _, rfl, _⟩ := leave_cases h
    exact length_members_onMember s j _
  | retire =>
    obtain ⟨_, _, _, rfl, _⟩ := retire_cases h
    change s.dropWaiters.members.length = _
    rw [dropWaiters_eq_tell, length_members_tell]
  | finish c =>
    obtain ⟨_, _, _, _, rfl, _⟩ := finish_cases h
    rfl

theorem length_members_perform {a : Act} (h : s.perform a = some t) :
    t.members.length = s.members.length := by
  cases a with
  | call target k =>
    cases target with
    | client j a manner =>
      obtain ⟨_, _, _, ⟨_, rfl⟩ | ⟨_, rfl⟩⟩ := call_client_cases h
      · exact length_members_onMember (s.enter _ _ _) j _
      · rfl
    | store op =>
      obtain ⟨_, ⟨_, rfl⟩ | ⟨_, rfl⟩⟩ := call_store_cases h <;> rfl
    | snapshot =>
      obtain ⟨_, ⟨_, rfl⟩ | ⟨_, rfl⟩⟩ := call_snapshot_cases h <;> rfl
  | take c =>
    obtain ⟨_, rfl⟩ := take_cases h
    rfl
  | wait c =>
    obtain ⟨_, rfl⟩ := wait_cases h
    rfl
  | cancel c =>
    obtain rfl := Option.some.inj h
    obtain heq | ⟨_, ⟨j, heq⟩ | heq⟩ := cancel_cases s c
    · rw [heq]
    · rw [heq]
      exact length_members_onMember s j _
    · rw [heq]
      rfl
  | closeClient j =>
    obtain rfl := closeClient_cases h
    exact length_members_onMember s j _
  | closeStore =>
    obtain rfl := Option.some.inj h
    rfl
  | killClient j =>
    obtain ⟨_, _, ⟨_, _, hmembers⟩ | ⟨_, rfl⟩⟩ := killClient_cases h
    · rw [hmembers]
      exact length_members_onMember s j _
    · rfl
  | killStore =>
    obtain rfl := Option.some.inj h
    exact (spread_killStore s).length_eq.symm

/-- Nobody joins a cluster. -/
theorem fares_before {m' : Member} (h : s.step l = some (t, es)) (hm' : t.members[i]? = some m') :
    ∃ m, s.members[i]? = some m ∧ s.Fares t i m l es m' := by
  have hlength : t.members.length = s.members.length := by
    cases l with
    | act a => exact length_members_perform (step_act h).1
    | move mv =>
      obtain ⟨_, hfire, _⟩ := step_move h
      exact length_members_fire hfire
  have hi : i < s.members.length := by
    rw [← hlength]
    exact (List.getElem?_eq_some_iff.mp hm').1
  obtain ⟨n, hn, fares⟩ := fares_step (List.getElem?_eq_getElem hi) h
  obtain rfl := Option.some.inj (hm'.symm.trans hn)
  exact ⟨_, List.getElem?_eq_getElem hi, fares⟩

end Cluster

end Custody
