import Custody.Proofs.Away.Steps
import Custody.Proofs.Order.Lane
import Custody.Proofs.Session.Turns
import Custody.Proofs.Stop.Outcome
import Custody.Proofs.Store.Separation

/-!
# What others do to a call on a client

Apart from its caller nobody has to do with a call on a client but the client. It answers the call,
or it is killed: then it drops the calls it has taken in and turns away those still outside. What is
done to the store and to other clients the call does not notice.
-/

namespace Custody

/-- The reply to call `c` that an event tells of. -/
def Event.replyTo? (c : Nat) : Event → Option ClientReply
  | .answered _ job r => if job.call = c then some r else none
  | _ => none

/-- The first reply to call `c`. -/
def replyTo (es : List Event) (c : Nat) : Option ClientReply := es.findSome? (Event.replyTo? c)

theorem replyTo_append (es now : List Event) (c : Nat) :
    replyTo (es ++ now) c = (replyTo es c).or (replyTo now c) := List.findSome?_append

theorem replyTo_answered (i : Nat) (job : Job) (r : ClientReply) :
    replyTo [.answered i job r] job.call = some r := by
  simp [replyTo, Event.replyTo?]

namespace Call

variable {call : Call}

/-- Who has heard something hears no more. -/
theorem receive_of_closed (hclosed : ¬ call.Open) (news : Slot Answer) :
    call.receive news = call := by
  obtain ⟨target, key, status⟩ := call
  cases status with
  | pending held slot =>
    cases slot with
    | empty => exact absurd ⟨held, rfl⟩ hclosed
    | _ => rfl
  | _ => rfl

theorem receive_receive {news : Slot Answer} (hnews : news ≠ .empty) :
    (call.receive news).receive news = call.receive news :=
  receive_of_closed (not_open_receive hnews) news

theorem refuse_refuse (f : Fault) : (call.refuse f).refuse f = call.refuse f := by
  obtain ⟨target, key, status⟩ := call
  cases status <;> rfl

theorem refuse_receive (news : Slot Answer) (f : Fault) :
    (call.receive news).refuse f = call.refuse f := by
  obtain ⟨target, key, status⟩ := call
  cases status <;> rfl

end Call

namespace Inbox

variable {α : Type} {b : Inbox α} {a x : α} {p : α → Bool}

theorem mem_blocked_push (h : x ∈ (b.push a).blocked) : x ∈ b.blocked ∨ x = a := by
  rw [blocked, push, List.drop_append] at h
  rcases List.mem_append.mp h with hold | hnew
  · exact Or.inl hold
  · exact Or.inr (List.mem_singleton.mp (List.mem_of_mem_drop hnew))

theorem mem_blocked_of_withdraw (h : x ∈ (b.withdraw p).blocked) : x ∈ b.blocked := by
  rw [blocked, withdraw, List.drop_append] at h
  rcases List.mem_append.mp h with hinside | houtside
  · rw [queued, List.drop_eq_nil_of_le (List.length_take_le _ _)] at hinside
    cases hinside
  · exact List.mem_of_mem_filter (List.mem_of_mem_drop houtside)

end Inbox

namespace Cluster

/-- What a step of somebody else that reports `es` makes of call `c`, a call on client `i`. -/
inductive Affects (s : Cluster) (i c : Nat) (call : Call) : Label → List Event → Call → Prop where
  | kept {l : Label} {es : List Event} (hnone : replyTo es c = none)
      (hl : l ≠ .act (.killClient i)) : Affects s i c call l es call
  | answered {l : Label} {job : Job} (r : ClientReply) (hjob : job.call = c)
      (hpresent : s.isPresent (.client i) = true) :
      Affects s i c call l [.answered i job r] (call.receive (.full (.client r)))
  | spared (hclosed : ¬ call.Open) : Affects s i c call (.act (.killClient i)) [] call
  | dropped : Affects s i c call (.act (.killClient i)) [] (call.receive .dropped)
  | refused (name : String) (hblocked : s.isBlocked c i = true) :
      Affects s i c call (.act (.killClient i)) []
        (call.refuse (.failure (.clientUnavailable name)))

variable {s t u : Cluster} {l : Label} {es now : List Event} {e : Event} {i j c : Nat}
  {call call' : Call} {act : Action} {manner : Manner} {m m' : Member}

theorem Affects.of_closed (affects : s.Affects i c call l es call') (hclosed : ¬ call.Open)
    (hqueued : s.isBlocked c i = false) : call' = call := by
  cases affects with
  | kept => rfl
  | answered r => exact Call.receive_of_closed hclosed _
  | spared => rfl
  | dropped => exact Call.receive_of_closed hclosed _
  | refused name hblocked => cases hqueued.symm.trans hblocked

/-! ## Moves -/

/-- The store tells nobody who has called a client. -/
theorem calls_tell_of_listed (onRecord : s.OnRecord) (hcall : s.calls[c]? = some call)
    (htarget : call.target = .client i act manner) {fates : List (Requester × Fate)}
    (hlisted : ∀ f ∈ fates, s.Lists f.1) (hsame : u.calls = s.calls) :
    (u.tell fates).calls[c]? = some call := by
  have hnone : fates.lookup (.caller c) = none := by
    rw [List.lookup_eq_none_iff]
    intro f hf
    by_contra hwho
    obtain ⟨call', hcall', hstore⟩ := onRecord.callers c (by
      rw [show Requester.caller c = f.1 by simpa using hwho]
      exact hlisted f hf)
    obtain rfl := Option.some.inj (hcall.symm.trans hcall')
    exact hstore _ _ _ htarget
  rw [calls_tell, hsame, hcall, hnone]
  rfl

/-- A job that a member has is for a call on that member. -/
theorem eq_of_job (onRecord : s.OnRecord) (hcall : s.calls[c]? = some call)
    (htarget : call.target = .client i act manner) {m : Member} {job : Job}
    (hm : s.members[j]? = some m) (hmem : job ∈ m.jobs) (hjob : job.call = c) : j = i := by
  obtain ⟨call', manner', hcall', htarget', _⟩ := onRecord.placed j m job hm hmem
  rw [hjob, hcall] at hcall'
  obtain rfl := Option.some.inj hcall'
  rw [htarget] at htarget'
  cases htarget'
  rfl

theorem calls_serve_of_client (onRecord : s.OnRecord) (hcall : s.calls[c]? = some call)
    (htarget : call.target = .client i act manner) (h : s.serve = some (t, e)) :
    t.calls[c]? = some call := by
  obtain ⟨_, rest, ⟨r, hentries, rfl, _⟩ | ⟨id, hentries, rfl, _⟩⟩ := serve_cases h
  · refine calls_tell_of_listed onRecord hcall htarget (fun f hf => ?_) rfl
    rcases Store.concerned_of_fate hf with hwho | hwaits
    · exact Or.inl ⟨.request r, hentries ▸ List.mem_cons_self, hwho.symm⟩
    · exact Or.inr ⟨r.key, hwaits⟩
  · rw [calls_onCall, if_neg, calls_stored, hcall]
    rintro rfl
    obtain ⟨call', hcall', hstore⟩ :=
      onRecord.callers id (Or.inl ⟨.snapshot id, hentries ▸ List.mem_cons_self, rfl⟩)
    obtain rfl := Option.some.inj (hcall.symm.trans hcall')
    exact hstore _ _ _ htarget

theorem affects_answer (onRecord : s.OnRecord) (hcall : s.calls[c]? = some call)
    (htarget : call.target = .client i act manner) {job : Job} (r : ClientReply) (mv : Move)
    (hm : s.members[j]? = some m) (hrun : m.running = true) (hmem : job ∈ m.jobs)
    (hsame : u.calls = s.calls) : ∃ call', (u.answer job r).calls[c]? = some call' ∧
      s.Affects i c call (.move mv) [.answered j job r] call' := by
  rw [answer, calls_onCall, hsame, hcall]
  split
  · rename_i hjob
    obtain rfl := eq_of_job onRecord hcall htarget hm hmem hjob
    refine ⟨_, rfl, .answered r hjob ?_⟩
    rw [isPresent, hm]
    exact hrun
  · rename_i hjob
    exact ⟨_, rfl, .kept (by simp [replyTo, Event.replyTo?, hjob]) (by simp)⟩

theorem affects_fire {mv : Move} (onRecord : s.OnRecord) (hcall : s.calls[c]? = some call)
    (htarget : call.target = .client i act manner) (hmv : mv ≠ .finish c)
    (h : s.fire mv = some (t, e)) :
    ∃ call', t.calls[c]? = some call' ∧ s.Affects i c call (.move mv) [e] call' := by
  cases mv with
  | serve =>
    refine ⟨call, calls_serve_of_client onRecord hcall htarget h, .kept ?_ (by simp)⟩
    obtain ⟨_, _, ⟨_, _, _, rfl⟩ | ⟨_, _, _, rfl⟩⟩ := serve_cases h
    · rfl
    · rfl
  | begin j =>
    obtain ⟨m, job, rest, cache, hm, hrun, _, hentries, hdone⟩ := begin_cases h
    have hmem : job ∈ m.jobs := Member.mem_jobs.mpr (Or.inr (hentries ▸ List.mem_cons_self))
    obtain ⟨r, _, rfl, rfl⟩ | ⟨_, _, rfl, rfl⟩ | ⟨_, _, last, r, _, rfl, rfl⟩ := hdone
    · exact affects_answer onRecord hcall htarget r _ hm hrun hmem rfl
    · exact ⟨call, hcall, .kept rfl (by simp)⟩
    · exact affects_answer onRecord hcall htarget r _ hm hrun hmem rfl
  | resume j =>
    obtain ⟨m, job, slot, answer, cache, r, hm, hwork, _, _, rfl, rfl⟩ := resume_cases h
    exact affects_answer onRecord hcall htarget r _ hm (onRecord.workers j m _ hm hwork).1
      (Member.mem_jobs.mpr (Or.inl ⟨slot, hwork⟩)) rfl
  | leave j =>
    obtain ⟨_, _, _, _, _, _, rfl, rfl⟩ := leave_cases h
    exact ⟨call, hcall, .kept rfl (by simp)⟩
  | retire =>
    obtain ⟨_, _, _, rfl, rfl⟩ := retire_cases h
    refine ⟨call, ?_, .kept rfl (by simp)⟩
    change s.dropWaiters.calls[c]? = _
    rw [dropWaiters_eq_tell]
    refine calls_tell_of_listed onRecord hcall htarget (fun f hf => ?_) rfl
    obtain ⟨w, hw, rfl⟩ := List.mem_map.mp hf
    exact Or.inr ⟨w.1, Std.ExtTreeMap.mem_toList_iff_getElem?_eq_some.mp hw⟩
  | finish d =>
    obtain ⟨_, _, _, _, rfl, rfl⟩ := finish_cases h
    have hd : d ≠ c := fun hd => hmv (congrArg Move.finish hd)
    exact ⟨call, by rw [calls_onCall, if_neg hd, hcall], .kept rfl (by simp)⟩

/-! ## Deaths -/

theorem calls_killClient_of_ne (onRecord : s.OnRecord) (hcall : s.calls[c]? = some call)
    (htarget : call.target = .client i act manner) (hij : j ≠ i) (h : s.killClient j = some t) :
    t.calls[c]? = some call := by
  obtain ⟨m, hm, ⟨hrun, _⟩ | ⟨_, rfl⟩⟩ := killClient_cases h
  · have hother : ∀ {f : Call → Call} (job : Job), job ∈ m.jobs → ∀ s : Cluster,
        (s.onCall job.call f).calls[c]? = s.calls[c]? := by
      intro f job hmem s
      rw [calls_onCall, if_neg fun hjob => hij (eq_of_job onRecord hcall htarget hm hmem hjob)]
    rw [calls_killClient h hm hrun, calls_foldl, calls_foldl, hcall]
    · intro job hjob
      refine hother job ?_
      rcases List.mem_append.mp hjob with hjob | hjob
      · exact List.mem_append_left _ hjob
      · exact List.mem_append_right _ (List.mem_of_mem_take hjob)
    · exact fun job hjob => hother job (List.mem_append_right _ (List.mem_of_mem_drop hjob))
  · exact hcall

/-- Of a change made to the calls of several jobs, a call is changed once or not at all. -/
theorem calls_foldl_cases {f : Call → Call} (hf : ∀ call, f (f call) = f call) (jobs : List Job)
    (hcall : s.calls[c]? = some call) :
    (jobs.foldl (fun s job => s.onCall job.call f) s).calls[c]? = some call ∨
      (∃ job ∈ jobs, job.call = c) ∧
        (jobs.foldl (fun s job => s.onCall job.call f) s).calls[c]? = some (f call) := by
  induction jobs generalizing s call with
  | nil => exact Or.inl hcall
  | cons job rest ih =>
    rw [List.foldl_cons]
    by_cases hjob : job.call = c
    · have hnext : (s.onCall job.call f).calls[c]? = some (f call) := by
        rw [calls_onCall, if_pos hjob, hcall]
        rfl
      refine Or.inr ⟨⟨job, List.mem_cons_self, hjob⟩, ?_⟩
      rcases ih hnext with hsame | ⟨_, htwice⟩
      · exact hsame
      · rw [htwice, hf]
    · have hnext : (s.onCall job.call f).calls[c]? = some call := by
        rw [calls_onCall, if_neg hjob, hcall]
      rcases ih hnext with hsame | ⟨⟨job', hmem, hjob'⟩, honce⟩
      · exact Or.inl hsame
      · exact Or.inr ⟨⟨job', List.mem_cons_of_mem _ hmem, hjob'⟩, honce⟩

theorem affects_killClient (onRecord : s.OnRecord) (hcall : s.calls[c]? = some call)
    (htarget : call.target = .client i act manner) (h : s.killClient i = some t) :
    ∃ call', t.calls[c]? = some call' ∧ s.Affects i c call (.act (.killClient i)) [] call' := by
  obtain ⟨m, hm, ⟨hrun, _⟩ | ⟨hstopped, rfl⟩⟩ := killClient_cases h
  · have hcalls := congrArg (·[c]?) (calls_killClient h hm hrun)
    have hblocked : (∃ job ∈ m.inbox.blocked, job.call = c) → s.isBlocked c i = true :=
      (isBlocked_iff hm).mpr
    have hlost := calls_foldl_cases (f := (·.receive .dropped))
      (fun _ => Call.receive_receive nofun) (m.work.toList.map (·.job) ++ m.inbox.queued) hcall
    have haway := fun (u : Cluster) call (hcall : u.calls[c]? = some call) =>
      calls_foldl_cases (f := (·.refuse (.failure (.clientUnavailable m.name))))
        (fun _ => Call.refuse_refuse _) m.inbox.blocked hcall
    rcases hlost with hkept | ⟨_, hdropped⟩
    · rcases haway _ call hkept with hkept | ⟨hjob, hrefused⟩
      · refine ⟨call, hcalls.trans hkept, .spared fun hopen => ?_⟩
        obtain ⟨m', hm', _, hmem⟩ := onRecord.carried c call i act manner hcall htarget hopen
        obtain rfl := Option.some.inj (hm.symm.trans hm')
        exact closed_of_killClient h hm hrun hmem (hcalls.trans hkept) hopen
      · exact ⟨_, hcalls.trans hrefused, .refused m.name (hblocked hjob)⟩
    · rcases haway _ _ hdropped with hkept | ⟨hjob, hrefused⟩
      · exact ⟨_, hcalls.trans hkept, .dropped⟩
      · rw [Call.refuse_receive] at hrefused
        exact ⟨_, hcalls.trans hrefused, .refused m.name (hblocked hjob)⟩
  · refine ⟨call, hcall, .spared fun hopen => ?_⟩
    obtain ⟨m', hm', hrun, _⟩ := onRecord.carried c call i act manner hcall htarget hopen
    obtain rfl := Option.some.inj (hm.symm.trans hm')
    cases hstopped.symm.trans hrun

/-! ## Steps -/

theorem affects_perform {a : Act} (onRecord : s.OnRecord) (hcall : s.calls[c]? = some call)
    (htarget : call.target = .client i act manner) (ha : Label.byCaller c (.act a) = false)
    (h : s.perform a = some t) :
    ∃ call', t.calls[c]? = some call' ∧ s.Affects i c call (.act a) [] call' := by
  cases a with
  | call target k =>
    obtain ⟨_, _, _, _, hcalls⟩ | ⟨hother, _⟩ :=
      calls_step (show s.step (.act (.call target k)) = some (t, []) by
        rw [step, h]
        rfl)
    · refine ⟨call, ?_, .kept rfl (by simp)⟩
      rw [hcalls, List.getElem?_append_left (List.getElem?_eq_some_iff.mp hcall).1, hcall]
    · exact absurd rfl (hother target k)
  | take d =>
    have hd : d ≠ c := by simpa [Label.byCaller] using ha
    obtain ⟨f, rfl⟩ := take_cases h
    exact ⟨call, by rw [calls_onCall, if_neg hd, hcall], .kept rfl (by simp)⟩
  | wait d =>
    have hd : d ≠ c := by simpa [Label.byCaller] using ha
    obtain ⟨f, rfl⟩ := wait_cases h
    exact ⟨call, by rw [calls_onCall, if_neg hd, hcall], .kept rfl (by simp)⟩
  | cancel d =>
    have hd : d ≠ c := by simpa [Label.byCaller] using ha
    obtain rfl := Option.some.inj h
    exact ⟨call, by rw [calls_cancel, if_neg hd, hcall], .kept rfl (by simp)⟩
  | closeClient j =>
    obtain rfl := closeClient_cases h
    exact ⟨call, hcall, .kept rfl (by simp)⟩
  | closeStore =>
    obtain rfl := Option.some.inj h
    exact ⟨call, hcall, .kept rfl (by simp)⟩
  | killClient j =>
    by_cases hij : j = i
    · subst hij
      exact affects_killClient onRecord hcall htarget h
    · exact ⟨call, calls_killClient_of_ne onRecord hcall htarget hij h, .kept rfl (by simpa using hij)⟩
  | killStore =>
    obtain rfl := Option.some.inj h
    exact ⟨call, onRecord.call_killStore hcall htarget, .kept rfl (by simp)⟩

theorem affects_step (onRecord : s.OnRecord) (hcall : s.calls[c]? = some call)
    (htarget : call.target = .client i act manner) (hl : l.byCaller c = false)
    (h : s.step l = some (t, now)) :
    ∃ call', t.calls[c]? = some call' ∧ s.Affects i c call l now call' := by
  cases l with
  | act a =>
    obtain ⟨hact, rfl⟩ := step_act h
    exact affects_perform onRecord hcall htarget hl hact
  | move mv =>
    obtain ⟨e, hfire, rfl⟩ := step_move h
    refine affects_fire onRecord hcall htarget ?_ hfire
    rintro rfl
    simp [Label.byCaller] at hl

/-- A call that has been made is there for good, with the same target and key. -/
theorem call_after (h : s.step l = some (t, now)) (hcall : s.calls[c]? = some call) :
    ∃ call', t.calls[c]? = some call' ∧ call.Agrees call' := by
  obtain ⟨_, _, _, _, hcalls⟩ | ⟨_, hagrees⟩ := calls_step h
  · refine ⟨call, ?_, rfl, rfl⟩
    rw [hcalls, List.getElem?_append_left (List.getElem?_eq_some_iff.mp hcall).1, hcall]
  · exact after_of_forall₂ hagrees hcall

/-! ## What no step brings back -/

theorem running_of_fares (fares : s.Fares t i m l es m') (hrun : m'.running = true) :
    m.running = true := by
  cases fares with
  | left => cases hrun
  | killed => cases hrun
  | _ => exact hrun

theorem name_of_fares (fares : s.Fares t i m l es m') : m'.name = m.name := by
  cases fares <;> rfl

/-- Nothing gets out of the queue again: what is outside was outside before, or has been sent just
now. -/
theorem blocked_of_fares (fares : s.Fares t i m l es m') {job : Job}
    (hjob : job ∈ m'.inbox.blocked) : job ∈ m.inbox.blocked ∨ job.call = s.calls.length := by
  have htaken : ∀ {first : Job} {rest : List Job}, m.inbox.entries = first :: rest →
      job ∈ rest.drop m.inbox.room → job ∈ m.inbox.blocked := by
    intro first rest hentries hmem
    rw [Inbox.blocked, hentries]
    exact (List.drop_sublist_drop_left (first :: rest) (Nat.le_succ _)).subset hmem
  cases fares with
  | kept => exact Or.inl hjob
  | called a manner k =>
    rcases Inbox.mem_blocked_push hjob with hold | rfl
    · exact Or.inl hold
    · exact Or.inr rfl
  | withdrew d => exact Or.inl (Inbox.mem_blocked_of_withdraw hjob)
  | served => exact Or.inl hjob
  | settled first rest cache r _ _ _ hentries => exact Or.inl (htaken hentries hjob)
  | asked first rest cache _ _ hentries => exact Or.inl (htaken hentries hjob)
  | refused first rest _ cache r _ _ _ hentries => exact Or.inl (htaken hentries hjob)
  | finished => exact Or.inl hjob
  | left => simp [Member.halt, Inbox.clear, Inbox.blocked] at hjob
  | killed => simp [Member.halt, Inbox.clear, Inbox.blocked] at hjob
  | bereft => exact Or.inl hjob

/-- An actor that has stopped stays so. -/
theorem isPresent_before (h : s.step l = some (t, now))
    (hpresent : t.isPresent (.client i) = true) : s.isPresent (.client i) = true := by
  simp only [isPresent, Option.any_eq_true] at hpresent ⊢
  obtain ⟨m', hm', hrun⟩ := hpresent
  obtain ⟨m, hm, fares⟩ := fares_before h hm'
  exact ⟨m, hm, running_of_fares fares hrun⟩

theorem nameOf_step (h : s.step l = some (t, now)) (i : Nat) : t.nameOf i = s.nameOf i := by
  unfold nameOf
  cases hm : s.members[i]? with
  | none =>
    cases hm' : t.members[i]? with
    | none => rfl
    | some m' =>
      obtain ⟨m, hm, _⟩ := fares_before h hm'
      simp_all
  | some m =>
    obtain ⟨m', hm', fares⟩ := fares_step hm h
    rw [hm']
    exact name_of_fares fares

/-- An action that is in the queue of its client never was outside later on. -/
theorem isBlocked_before (h : s.step l = some (t, now)) (hc : c < s.calls.length)
    (hblocked : t.isBlocked c i = true) : s.isBlocked c i = true := by
  simp only [isBlocked, Option.any_eq_true] at hblocked ⊢
  obtain ⟨m', hm', hblocked⟩ := hblocked
  obtain ⟨job, hmem, hjob⟩ := List.any_eq_true.mp hblocked
  obtain rfl : job.call = c := by simpa using hjob
  obtain ⟨m, hm, fares⟩ := fares_before h hm'
  refine ⟨m, hm, List.any_eq_true.mpr ⟨job, ?_, hjob⟩⟩
  rcases blocked_of_fares fares hmem with hold | hnew
  · exact hold
  · exact absurd hc (by omega)

end Cluster

end Custody
