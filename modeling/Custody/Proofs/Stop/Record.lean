import Custody.Proofs.Calls.Booking
import Custody.Proofs.Calls.Onward
import Custody.Proofs.Coherence.Routing

/-!
# Who is on record

Whoever has asked the store for something and has heard nothing yet is on record: the store runs,
and it has the message in its inbox or has parked the reader. Likewise the job of a call of which
nothing has been heard is with a client that runs. Every step keeps this, the death of an actor
included, since an actor that stops tells everybody it leaves behind.
-/

namespace Custody

/-- A call for the store, not for a client. -/
def Target.AtStore (target : Target) : Prop := ∀ i act manner, target ≠ .client i act manner

namespace Cluster

/-- `x` waits for an answer of the store and has heard nothing. -/
def Expects (s : Cluster) : Requester → Prop
  | .client i => ∃ m job, s.members[i]? = some m ∧ m.work = some ⟨job, .empty⟩
  | .caller c => ∃ call, s.calls[c]? = some call ∧ call.target.AtStore ∧ call.Open

/-- The store has a message of `x`, or has parked `x`. -/
def Lists (s : Cluster) (x : Requester) : Prop :=
  (∃ command ∈ s.keeper.inbox.entries, command.sender = x) ∨
    ∃ k, s.keeper.store.waiter k = some x

/-- The store runs and knows of `x`. -/
def Minds (s : Cluster) (x : Requester) : Prop := s.keeper.running = true ∧ s.Lists x

/-- An actor that runs has the message of call `c`, and with it the sending end for the reply. -/
def InHand (s : Cluster) (c : Nat) (call : Call) : Prop :=
  match call.target with
  | .client i act _ => ∃ m, s.members[i]? = some m ∧ m.running = true ∧
      ⟨c, act, call.key⟩ ∈ m.jobs
  | _ => s.Minds (.caller c)

structure OnRecord (s : Cluster) : Prop where
  minded : ∀ x, s.Expects x → s.Minds x
  callers : ∀ c, s.Lists (.caller c) → ∃ call, s.calls[c]? = some call ∧ call.target.AtStore
  workers : ∀ (i : Nat) m w, s.members[i]? = some m → m.work = some w →
    m.running = true ∧ w.answer ≠ .spent
  unheld : ∀ (c : Nat) call slot, s.calls[c]? = some call → call.target.AtStore →
    call.status ≠ .pending true slot
  placed : ∀ (i : Nat) m job, s.members[i]? = some m → job ∈ m.jobs → ∃ call manner,
    s.calls[job.call]? = some call ∧ call.target = .client i job.action manner ∧
      call.key = job.key
  carried : ∀ (c : Nat) call i act manner, s.calls[c]? = some call →
    call.target = .client i act manner → call.Open →
      ∃ m, s.members[i]? = some m ∧ m.running = true ∧ ⟨c, act, call.key⟩ ∈ m.jobs

variable {s t u : Cluster} {e : Event} {es : List Event} {i n : Nat} {m : Member} {call : Call}
  {x : Requester}

theorem onRecord_start (setup : Setup) : (start setup).OnRecord where
  minded x hx := by
    cases x with
    | client i =>
      obtain ⟨m, job, hm, hwork⟩ := hx
      simp only [start, List.getElem?_map, Option.map_eq_some_iff] at hm
      obtain ⟨client, _, rfl⟩ := hm
      cases hwork
    | caller c =>
      obtain ⟨call, hcall, _⟩ := hx
      simp [start] at hcall
  callers c hlists := by
    rcases hlists with ⟨command, hmem, _⟩ | ⟨k, hwaits⟩
    · cases hmem
    · simp [start, Store.waiter] at hwaits
  workers i m w hm hwork := by
    simp only [start, List.getElem?_map, Option.map_eq_some_iff] at hm
    obtain ⟨client, _, rfl⟩ := hm
    cases hwork
  unheld c call slot hcall := by simp [start] at hcall
  placed i m job hm hjob := by
    simp only [start, List.getElem?_map, Option.map_eq_some_iff] at hm
    obtain ⟨client, _, rfl⟩ := hm
    rcases Member.mem_jobs.mp hjob with ⟨slot, hwork⟩ | hinbox
    · cases hwork
    · cases hinbox
  carried c call i act manner hcall := by simp [start] at hcall

theorem OnRecord.inHand (onRecord : s.OnRecord) (hcall : s.calls[n]? = some call)
    (hopen : call.Open) : s.InHand n call := by
  unfold InHand
  split
  · rename_i i act manner htarget
    exact onRecord.carried n call i act manner hcall htarget hopen
  · rename_i hstore
    exact onRecord.minded (.caller n) ⟨call, hcall, hstore, hopen⟩

/-- What a step has to show that makes no new call. -/
theorem OnRecord.change (onRecord : s.OnRecord) (hcalls : List.Forall₂ Call.Ages s.calls t.calls)
    (hminded : ∀ x, t.Expects x → t.Minds x)
    (hlists : ∀ c, t.Lists (.caller c) → s.Lists (.caller c))
    (hworkers : ∀ (i : Nat) m' w, t.members[i]? = some m' → m'.work = some w →
      m'.running = true ∧ w.answer ≠ .spent)
    (hjobs : ∀ (i : Nat) m', t.members[i]? = some m' →
      ∃ m, s.members[i]? = some m ∧ ∀ job ∈ m'.jobs, job ∈ m.jobs)
    (hkeep : ∀ (i : Nat) m job call', s.members[i]? = some m → m.running = true → job ∈ m.jobs →
      t.calls[job.call]? = some call' → call'.Open →
        ∃ m', t.members[i]? = some m' ∧ m'.running = true ∧ job ∈ m'.jobs) : t.OnRecord where
  minded := hminded
  callers := by
    intro c hlater
    obtain ⟨call, hcall, hstore⟩ := onRecord.callers c (hlists c hlater)
    obtain ⟨call', hcall', hages⟩ := after_of_forall₂ hcalls hcall
    exact ⟨call', hcall', hages.target ▸ hstore⟩
  workers := hworkers
  unheld := by
    intro c call' slot hcall' hstore hheld
    obtain ⟨call, hcall, hages⟩ := before_of_forall₂ hcalls hcall'
    obtain ⟨slot', hheld'⟩ := hages.held slot hheld
    exact onRecord.unheld c call slot' hcall (hages.target ▸ hstore) hheld'
  placed := by
    intro i m' job hm' hjob
    obtain ⟨m, hm, hless⟩ := hjobs i m' hm'
    obtain ⟨call, manner, hcall, htarget, hkey⟩ := onRecord.placed i m job hm (hless job hjob)
    obtain ⟨call', hcall', hages⟩ := after_of_forall₂ hcalls hcall
    exact ⟨call', manner, hcall', hages.target.trans htarget, hages.key.trans hkey⟩
  carried := by
    intro c call' i act manner hcall' htarget hopen
    obtain ⟨call, hcall, hages⟩ := before_of_forall₂ hcalls hcall'
    obtain ⟨m, hm, hrun, hjob⟩ :=
      onRecord.carried c call i act manner hcall (hages.target ▸ htarget) (hages.opened hopen)
    rw [hages.key]
    exact hkeep i m _ call' hm hrun hjob hcall' hopen

/-- A store that has stopped has forgotten everybody. -/
theorem not_lists_of_halt {k : Keeper} (hkeeper : t.keeper = k.halt) : ¬ t.Lists x := by
  rw [Lists, hkeeper]
  rintro (⟨command, hmem, _⟩ | ⟨k, hwaits⟩)
  · cases hmem
  · simp [Keeper.halt, Store.waiter] at hwaits

/-! ## Who expects something -/

/-- A requester does not begin to expect anything unless it takes up work. -/
theorem expects_before (hcalls : List.Forall₂ Call.Ages s.calls t.calls)
    (hwork : ∀ (i : Nat) m' job, t.members[i]? = some m' → m'.work = some ⟨job, .empty⟩ →
      ∃ m, s.members[i]? = some m ∧ m.work = some ⟨job, .empty⟩)
    (hx : t.Expects x) : s.Expects x := by
  cases x with
  | client i =>
    obtain ⟨m', job, hm', hopen⟩ := hx
    obtain ⟨m, hm, hbefore⟩ := hwork i m' job hm' hopen
    exact ⟨m, job, hm, hbefore⟩
  | caller c =>
    obtain ⟨call', hcall', hstore, hopen⟩ := hx
    obtain ⟨call, hcall, hages⟩ := before_of_forall₂ hcalls hcall'
    exact ⟨call, hcall, hages.target ▸ hstore, hages.opened hopen⟩

/-- Where nobody takes up work and the store is left alone, everybody stays on record. -/
theorem OnRecord.minds (onRecord : s.OnRecord) (hkeeper : t.keeper = s.keeper)
    (hcalls : List.Forall₂ Call.Ages s.calls t.calls)
    (hwork : ∀ (i : Nat) m' job, t.members[i]? = some m' → m'.work = some ⟨job, .empty⟩ →
      ∃ m, s.members[i]? = some m ∧ m.work = some ⟨job, .empty⟩)
    (hx : t.Expects x) : t.Minds x := by
  have hminds := onRecord.minded x (expects_before hcalls hwork hx)
  rw [Minds, Lists, hkeeper]
  exact hminds

theorem OnRecord.isPresent (onRecord : s.OnRecord) (hx : s.Expects x) :
    s.isPresent x = true := by
  cases x with
  | client i =>
    obtain ⟨m, job, hm, hwork⟩ := hx
    simp [Cluster.isPresent, hm, (onRecord.workers i m _ hm hwork).1]
  | caller c =>
    obtain ⟨call, hcall, _, held, hopen⟩ := hx
    simp [Cluster.isPresent, hcall, Call.isPending, hopen, Status.isPending]

theorem hear_empty {w : Work} {job : Job} {f : Option Fate} (h : w.hear f = ⟨job, .empty⟩) :
    w = ⟨job, .empty⟩ ∧ f = none := by
  obtain ⟨job', slot⟩ := w
  cases f with
  | none => exact ⟨h, rfl⟩
  | some f => cases slot <;> cases f <;> cases h

/-- Whoever has been told something expects nothing any more. -/
theorem expects_tell {fates : List (Requester × Fate)} (hx : (s.tell fates).Expects x) :
    s.Expects x ∧ fates.lookup x = none := by
  cases x with
  | client i =>
    obtain ⟨m', job, hm', hopen⟩ := hx
    rw [members_tell] at hm'
    obtain ⟨m, hm, rfl⟩ := Option.map_eq_some_iff.mp hm'
    obtain ⟨w, hw, hhear⟩ := Option.map_eq_some_iff.mp hopen
    obtain ⟨rfl, hnone⟩ := hear_empty hhear
    exact ⟨⟨m, job, hm, hw⟩, hnone⟩
  | caller c =>
    obtain ⟨call', hcall', hstore, hopen⟩ := hx
    rw [calls_tell] at hcall'
    obtain ⟨call, hcall, rfl⟩ := Option.map_eq_some_iff.mp hcall'
    cases hf : fates.lookup (.caller c) with
    | none =>
      rw [hf] at hstore hopen
      exact ⟨⟨call, hcall, hstore, hopen⟩, rfl⟩
    | some f =>
      rw [hf] at hopen
      exact absurd hopen (Call.not_open_hear f)

theorem expects_lose {command : Command} (hx : (s.lose command).Expects x) :
    s.Expects x ∧ x ≠ command.sender := by
  rw [lose_eq_tell] at hx
  obtain ⟨hbefore, hunheard⟩ := expects_tell hx
  refine ⟨hbefore, ?_⟩
  rintro rfl
  simp at hunheard

theorem expects_refuse {c : Nat} {f : Fault} (hx : (s.onCall c (·.refuse f)).Expects x) :
    s.Expects x ∧ x ≠ .caller c := by
  have hages := ages_of_onward (onward_onCall (s := s) (n := c) (f := (·.refuse f))
    fun _ _ => Call.becomes_refuse)
  refine ⟨expects_before hages (fun i m' job hm' hopen => ⟨m', hm', hopen⟩) hx, ?_⟩
  rintro rfl
  obtain ⟨call', hcall', _, hopen⟩ := hx
  rcases onCall_cases hcall' with ⟨_, call, _, rfl⟩ | ⟨hne, _⟩
  · exact Call.not_open_refuse hopen
  · exact hne rfl

theorem expects_turnAway {command : Command} (hx : (s.turnAway command).Expects x) :
    s.Expects x ∧ x ≠ command.sender := by
  rcases command with ⟨op, key, i | c⟩ | c
  · exact expects_lose (show (s.lose (.request ⟨op, key, .client i⟩)).Expects x from hx)
  · exact expects_refuse hx
  · exact expects_refuse hx

theorem expects_foldl {g : Cluster → Command → Cluster}
    (hg : ∀ (s : Cluster) command, (g s command).Expects x → s.Expects x ∧ x ≠ command.sender)
    {commands : List Command} (hx : (commands.foldl g s).Expects x) :
    s.Expects x ∧ ∀ command ∈ commands, command.sender ≠ x := by
  induction commands generalizing s with
  | nil => exact ⟨hx, nofun⟩
  | cons command rest ih =>
    obtain ⟨hnext, hrest⟩ := ih hx
    obtain ⟨hbefore, hne⟩ := hg s command hnext
    refine ⟨hbefore, ?_⟩
    intro command' hmem
    rcases List.mem_cons.mp hmem with rfl | hmem
    · exact Ne.symm hne
    · exact hrest command' hmem

/-- A parked reader of a store that stops hears that no answer will come. -/
theorem not_waiting_of_dropped (hx : s.dropWaiters.Expects x) (k : Key) :
    s.keeper.store.waiter k ≠ some x := by
  intro hwaits
  rw [dropWaiters_eq_tell] at hx
  obtain ⟨_, hunheard⟩ := expects_tell hx
  rw [List.lookup_eq_none_iff] at hunheard
  have hmem : (k, x) ∈ s.keeper.store.waiters.toList :=
    Std.ExtTreeMap.mem_toList_iff_getElem?_eq_some.mpr hwaits
  have htold := hunheard (x, Fate.discarded) (List.mem_map.mpr ⟨(k, x), hmem, rfl⟩)
  simp at htold

end Cluster

end Custody
