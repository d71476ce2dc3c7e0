import Custody.Proofs.Order.Fares

/-!
# The depth of the queues

How many messages a queue holds decides only who stands inside and who outside. An actor takes the
first message wherever it stands, so a cluster whose queues are given other depths does the same
things. Two acts look at the difference: a caller can take back only what is outside, and an actor
that is killed turns away only those outside.
-/

namespace Custody

def Inbox.refit {α : Type} (b : Inbox α) (room : Nat) : Inbox α := { b with room }

def Member.refit (m : Member) (room : Nat) : Member := { m with inbox := m.inbox.refit room }

def Keeper.refit (k : Keeper) (room : Nat) : Keeper := { k with inbox := k.inbox.refit room }

namespace Cluster

/-- The same cluster with queues of other depths. -/
def refit (s : Cluster) (room : Nat) (rooms : Nat → Nat) : Cluster :=
  { s with keeper := s.keeper.refit room, members := s.members.mapIdx fun i m => m.refit (rooms i) }

/-- Call `c` has sent a message that is still outside a queue. -/
def isOutside (s : Cluster) (c : Nat) : Bool :=
  (s.members.any fun m => m.inbox.blocked.any fun job => job.call == c) ||
    s.keeper.inbox.blocked.any fun command => command.sender == .caller c

/-- The label kills no actor, and no caller goes away while its message is outside a queue. -/
def isCalm (s : Cluster) : Label → Bool
  | .act (.cancel c) => !s.isOutside c
  | .act (.killClient _) => false
  | .act .killStore => false
  | _ => true

/-- A run in which every label is calm. -/
def sedate (s : Cluster) : List Label → Bool
  | [] => true
  | l :: rest => s.isCalm l && match s.step l with
    | some (t, _) => t.sedate rest
    | none => true

/-- The depth of each client's queue. -/
def rooms (s : Cluster) (i : Nat) : Nat :=
  match s.members[i]? with
  | some m => m.inbox.room
  | none => 0

variable (s : Cluster) (room : Nat) (rooms : Nat → Nat)

/-! ## Updates -/

theorem eq_of_parts {s t : Cluster} (hkeeper : s.keeper = t.keeper)
    (hmembers : s.members = t.members) (hcalls : s.calls = t.calls) : s = t := by
  obtain ⟨keeper, members, calls⟩ := s
  obtain rfl := hkeeper
  obtain rfl := hmembers
  obtain rfl := hcalls
  rfl

theorem members_refit (i : Nat) :
    (s.refit room rooms).members[i]? = s.members[i]?.map (·.refit (rooms i)) := by
  simp [refit]

/-- Two clusters that differ in the depths only. -/
theorem eq_refit {s t : Cluster} (hkeeper : t.keeper = s.keeper.refit t.keeper.inbox.room)
    (hmembers : ∀ i : Nat, t.members[i]? = s.members[i]?.map (·.refit (t.rooms i)))
    (hcalls : t.calls = s.calls) : t = s.refit t.keeper.inbox.room t.rooms :=
  eq_of_parts hkeeper
    (List.ext_getElem? fun i => (hmembers i).trans (members_refit s _ _ i).symm) hcalls

theorem refit_refit_self : (s.refit room rooms).refit s.keeper.inbox.room s.rooms = s := by
  have hself : s = (s.refit room rooms).refit s.keeper.inbox.room s.rooms := by
    refine eq_refit (s := s.refit room rooms) rfl (fun i => ?_) rfl
    rw [members_refit, Cluster.rooms]
    cases s.members[i]? <;> rfl
  exact hself.symm

theorem length_members_refit : (s.refit room rooms).members.length = s.members.length := by
  simp [refit]

/-- A change of one member is the same change whatever the depths. -/
theorem onMember_refit (i : Nat) {f g : Member → Member}
    (hfg : ∀ m, s.members[i]? = some m → g (m.refit (rooms i)) = (f m).refit (rooms i)) :
    (s.refit room rooms).onMember i g = (s.onMember i f).refit room rooms := by
  have hmembers : ((s.refit room rooms).onMember i g).members =
      ((s.onMember i f).refit room rooms).members := by
    refine List.ext_getElem? fun j => ?_
    rw [members_onMember, members_refit, members_refit, members_onMember]
    split
    · rename_i hij
      subst hij
      cases hm : s.members[i]? with
      | none => rfl
      | some m => simp [hfg m hm]
    · rfl
  exact eq_of_parts rfl hmembers rfl

theorem isPresent_refit : (s.refit room rooms).isPresent = s.isPresent := by
  funext x
  cases x with
  | client i =>
    simp only [isPresent, members_refit]
    cases s.members[i]? <;> rfl
  | caller c => rfl

theorem deliver_refit (who : Requester) (f : Fate) :
    (s.refit room rooms).deliver who f.news = (s.deliver who f.news).refit room rooms := by
  cases who with
  | client i => exact onMember_refit s room rooms i fun _ _ => rfl
  | caller c => rfl

theorem tell_refit (fates : List (Requester × Fate)) :
    (s.refit room rooms).tell fates = (s.tell fates).refit room rooms := by
  induction fates generalizing s with
  | nil => rfl
  | cons f rest ih => rw [tell_cons, tell_cons, deliver_refit, ih]

theorem nameOf_refit (i : Nat) : (s.refit room rooms).nameOf i = s.nameOf i := by
  rw [nameOf, nameOf, members_refit]
  cases s.members[i]? <;> rfl

theorem reachesStore_refit : (s.refit room rooms).reachesStore = s.reachesStore := by
  have hany : (s.refit room rooms).members.any (·.running) = s.members.any (·.running) := by
    rw [Bool.eq_iff_iff, List.any_eq_true, List.any_eq_true]
    simp only [List.mem_iff_getElem?, members_refit]
    constructor
    · rintro ⟨m', ⟨i, hm'⟩, hrun⟩
      obtain ⟨m, hm, rfl⟩ := Option.map_eq_some_iff.mp hm'
      exact ⟨m, ⟨i, hm⟩, hrun⟩
    · rintro ⟨m, ⟨i, hm⟩, hrun⟩
      exact ⟨m.refit (rooms i), ⟨i, by rw [hm]; rfl⟩, hrun⟩
  rw [reachesStore, reachesStore, hany]
  rfl

/-! ## Moves -/

variable {s} {t : Cluster} {e : Event} {i : Nat}

theorem serve_refit (h : s.serve = some (t, e)) :
    (s.refit room rooms).serve = some (t.refit room rooms, e) := by
  obtain ⟨hrun, rest, ⟨r, hentries, rfl, rfl⟩ | ⟨c, hentries, rfl, rfl⟩⟩ := serve_cases h
  · have hrun' : (s.refit room rooms).keeper.running = true := hrun
    have hentries' : (s.refit room rooms).keeper.inbox.entries = .request r :: rest := hentries
    rw [serve, hrun', hentries', ← tell_refit, ← isPresent_refit s room rooms]
    rfl
  · have hrun' : (s.refit room rooms).keeper.running = true := hrun
    have hentries' : (s.refit room rooms).keeper.inbox.entries = .snapshot c :: rest := hentries
    rw [serve, hrun', hentries']
    rfl

theorem begin_refit (h : s.begin i = some (t, e)) :
    (s.refit room rooms).begin i = some (t.refit room rooms, e) := by
  obtain ⟨m, job, rest, cache, hm, hrun, hidle, hentries, hcases⟩ := begin_cases h
  have hm' : (s.refit room rooms).members[i]? = some (m.refit (rooms i)) := by
    rw [members_refit, hm]
    rfl
  have hset : ∀ n : Member, ((s.refit room rooms).onMember i fun _ => n.refit (rooms i)) =
      (s.onMember i fun _ => n).refit room rooms :=
    fun n => onMember_refit s room rooms i fun _ _ => rfl
  rw [begin, hm']
  obtain ⟨name, ⟨place, entries⟩, handle, running, cache', work⟩ := m
  obtain rfl : running = true := hrun
  obtain rfl : work = none := hidle
  obtain rfl : entries = job :: rest := hentries
  obtain ⟨r, hstart, rfl, rfl⟩ | ⟨hstart, hkeeper, rfl, rfl⟩ |
    ⟨hstart, hkeeper, last, r, hfinish, rfl, rfl⟩ := hcases
  · simp only [Option.bind_eq_bind, Option.bind_some, Member.refit, Inbox.refit, hstart]
    exact congrArg (fun u => some (u.answer job r, Event.answered i job r))
      (hset ⟨name, ⟨place, rest⟩, handle, true, cache, none⟩)
  · have hkeeper' : (s.refit room rooms).keeper.running = true := hkeeper
    simp only [Option.bind_eq_bind, Option.bind_some, Member.refit, Inbox.refit, hstart, hkeeper',
      if_true]
    exact congrArg (fun u => some (u.send (.request ⟨job.action.operation, job.key, .client i⟩),
      Event.asked i job)) (hset ⟨name, ⟨place, rest⟩, handle, true, cache, some ⟨job, .empty⟩⟩)
  · have hkeeper' : (s.refit room rooms).keeper.running = false := hkeeper
    simp only [Option.bind_eq_bind, Option.bind_some, Member.refit, Inbox.refit, hstart, hkeeper',
      Bool.false_eq_true, if_false, finishJob, hfinish]
    exact congrArg (fun u => some (u.answer job r, Event.answered i job r))
      (hset ⟨name, ⟨place, rest⟩, handle, true, last, none⟩)

theorem resume_refit (h : s.resume i = some (t, e)) :
    (s.refit room rooms).resume i = some (t.refit room rooms, e) := by
  obtain ⟨m, job, slot, answer, cache, r, hm, hwork, hanswer, hfinish, rfl, rfl⟩ := resume_cases h
  have hm' : (s.refit room rooms).members[i]? = some (m.refit (rooms i)) := by
    rw [members_refit, hm]
    rfl
  have hset := congrArg (fun u => some (u.answer job r, Event.answered i job r))
    (onMember_refit s room rooms i (f := fun _ => { m with cache, work := none })
      (g := fun _ => { m.refit (rooms i) with cache, work := none }) fun _ _ => rfl)
  rw [resume, hm']
  cases slot with
  | full a =>
    obtain rfl := Option.some.inj hanswer
    simp only [Option.bind_eq_bind, Option.bind_some, Member.refit, hwork, finishJob, hfinish]
    exact hset
  | dropped =>
    obtain rfl := Option.some.inj hanswer
    simp only [Option.bind_eq_bind, Option.bind_some, Member.refit, hwork, finishJob, hfinish]
    exact hset
  | empty => cases hanswer
  | spent => cases hanswer

theorem leave_refit (h : s.leave i = some (t, e)) :
    (s.refit room rooms).leave i = some (t.refit room rooms, e) := by
  obtain ⟨m, hm, hrun, hidle, hentries, hreaches, rfl, rfl⟩ := leave_cases h
  have hm' : (s.refit room rooms).members[i]? = some (m.refit (rooms i)) := by
    rw [members_refit, hm]
    rfl
  have hreaches' : (s.refit room rooms).reaches i (m.refit (rooms i)) = false := hreaches
  have hset := congrArg (fun u => some (u, Event.left i))
    (onMember_refit s room rooms i (f := .halt) (g := .halt) fun _ _ => rfl)
  rw [leave, hm']
  refine (if_pos ?_).trans hset
  rw [hreaches']
  simp [Member.refit, Inbox.refit, hrun, hidle, hentries]

theorem retire_refit (h : s.retire = some (t, e)) :
    (s.refit room rooms).retire = some (t.refit room rooms, e) := by
  obtain ⟨hrun, hentries, hreaches, rfl, rfl⟩ := retire_cases h
  have hreaches' : (s.refit room rooms).reachesStore = false := by
    rw [reachesStore_refit, hreaches]
  have hrun' : (s.refit room rooms).keeper.running = true := hrun
  have hentries' : (s.refit room rooms).keeper.inbox.entries = [] := hentries
  have hdropped : (s.refit room rooms).dropWaiters = s.dropWaiters.refit room rooms := by
    rw [dropWaiters_eq_tell, dropWaiters_eq_tell]
    exact tell_refit s room rooms _
  rw [retire, hrun', hentries', hreaches', hdropped]
  rfl

theorem finish_refit {c : Nat} (h : s.finish c = some (t, e)) :
    (s.refit room rooms).finish c = some (t.refit room rooms, e) := by
  obtain ⟨call, o, hcall, ho, rfl, rfl⟩ := finish_cases h
  have hcall' : (s.refit room rooms).calls[c]? = some call := hcall
  have ho' : (s.refit room rooms).outcome? call = some o := by
    rw [← ho]
    simp only [outcome?, lossOf, nameOf_refit]
  rw [finish, hcall']
  simp only [Option.bind_eq_bind, Option.bind_some, ho']
  rfl

theorem fire_refit {mv : Move} (h : s.fire mv = some (t, e)) :
    (s.refit room rooms).fire mv = some (t.refit room rooms, e) := by
  cases mv with
  | serve => exact serve_refit room rooms h
  | begin i => exact begin_refit room rooms h
  | resume i => exact resume_refit room rooms h
  | leave i => exact leave_refit room rooms h
  | retire => exact retire_refit room rooms h
  | finish c => exact finish_refit room rooms h

/-! ## Acts -/

theorem call_refit {target : Target} {k : Key} (h : s.call target k = some t) :
    (s.refit room rooms).call target k = some (t.refit room rooms) := by
  cases target with
  | client i a manner =>
    obtain ⟨m, hm, hhandle, hcases⟩ := call_client_cases h
    have hm' : (s.refit room rooms).members[i]? = some (m.refit (rooms i)) := by
      rw [members_refit, hm]
      rfl
    obtain ⟨hrun, rfl⟩ | ⟨hrun, rfl⟩ := hcases
    · have hset := onMember_refit (s.enter (.client i a manner) k
        (.pending (Target.client i a manner).isHeld .empty)) room rooms i
        (f := fun m => { m with inbox := m.inbox.push ⟨s.calls.length, a, k⟩ })
        (g := fun m => { m with inbox := m.inbox.push ⟨s.calls.length, a, k⟩ }) fun _ _ => rfl
      simp only [call, hm', Member.refit, hhandle, hrun]
      exact congrArg some hset
    · simp only [call, hm', Member.refit, hhandle, hrun]
      rfl
  | store op =>
    obtain ⟨hhandle, ⟨hrun, rfl⟩ | ⟨hrun, rfl⟩⟩ := call_store_cases h
    · have hhandle' : (s.refit room rooms).keeper.handle = true := hhandle
      have hrun' : (s.refit room rooms).keeper.running = true := hrun
      simp only [call, hhandle', hrun']
      rfl
    · have hhandle' : (s.refit room rooms).keeper.handle = true := hhandle
      have hrun' : (s.refit room rooms).keeper.running = false := hrun
      simp only [call, hhandle', hrun']
      rfl
  | snapshot =>
    obtain ⟨hhandle, ⟨hrun, rfl⟩ | ⟨hrun, rfl⟩⟩ := call_snapshot_cases h
    · have hhandle' : (s.refit room rooms).keeper.handle = true := hhandle
      have hrun' : (s.refit room rooms).keeper.running = true := hrun
      simp only [call, hhandle', hrun']
      rfl
    · have hhandle' : (s.refit room rooms).keeper.handle = true := hhandle
      have hrun' : (s.refit room rooms).keeper.running = false := hrun
      simp only [call, hhandle', hrun']
      rfl

theorem closeClient_refit (h : s.closeClient i = some t) :
    (s.refit room rooms).closeClient i = some (t.refit room rooms) := by
  have hi : i < s.members.length := by
    by_contra hi
    rw [closeClient, if_neg hi] at h
    cases h
  obtain rfl := closeClient_cases h
  rw [closeClient, if_pos (by rw [length_members_refit]; exact hi)]
  exact congrArg some (onMember_refit s room rooms i fun _ _ => rfl)

/-- Nothing of a call is taken back from a client's inbox when it is not outside. -/
theorem withdrawJob_of_inside {c : Nat} (h : s.isBlocked c i = false) : s.withdrawJob i c = s := by
  refine eq_of_parts rfl (List.ext_getElem? fun j => ?_) rfl
  rw [withdrawJob, members_onMember]
  split
  · rename_i hij
    subst hij
    cases hm : s.members[i]? with
    | none => rfl
    | some m =>
      rw [isBlocked, hm, Option.any_some, List.any_eq_false] at h
      rw [Option.map_some, Inbox.withdraw_eq_self fun job hjob => by simpa using h job hjob]
  · rfl

/-- A caller whose message is inside a queue, or has left it, leaves nothing behind outside. -/
theorem cancel_of_inside {c : Nat} (h : s.isOutside c = false) :
    s.cancel c = if s.isPresent (.caller c) then s.onCall c fun call =>
      { call with status := .cancelled } else s := by
  rw [isOutside, Bool.or_eq_false_iff, List.any_eq_false, List.any_eq_false] at h
  obtain ⟨hmembers, hkeeper⟩ := h
  have hjobs : ∀ i, s.withdrawJob i c = s := by
    intro i
    apply withdrawJob_of_inside
    rw [isBlocked]
    cases hm : s.members[i]? with
    | none => rfl
    | some m => simpa using hmembers m (List.mem_of_getElem? hm)
  have hmessages : s.withdraw (.caller c) = s := by
    rw [withdraw, Inbox.withdraw_eq_self fun command hcommand => by
      simpa using hkeeper command hcommand]
  rw [cancel]
  cases hcall : s.calls[c]? with
  | none => simp [isPresent, hcall]
  | some call =>
    cases hpending : call.isPending with
    | false => simp [isPresent, hcall, hpending]
    | true =>
      cases htarget : call.target with
      | client i a manner => simp [isPresent, hcall, hpending, htarget, hjobs]
      | store op => simp [isPresent, hcall, hpending, htarget, hmessages]
      | snapshot => simp [isPresent, hcall, hpending, htarget, hmessages]

theorem cancel_refit {c : Nat} (h : s.isOutside c = false)
    (h' : (s.refit room rooms).isOutside c = false) :
    (s.refit room rooms).cancel c = (s.cancel c).refit room rooms := by
  rw [cancel_of_inside h, cancel_of_inside h', isPresent_refit]
  split <;> rfl

theorem take_refit {c : Nat} (h : s.take c = some t) :
    (s.refit room rooms).take c = some (t.refit room rooms) := by
  obtain ⟨⟨target, key, status⟩, hcall, h⟩ := Option.bind_eq_some_iff.mp h
  have hcall' : (s.refit room rooms).calls[c]? = some ⟨target, key, status⟩ := hcall
  rw [take, hcall', Option.bind_eq_bind, Option.bind_some]
  cases status with
  | pending held slot =>
    cases held with
    | false => cases h
    | true => cases slot <;> cases h <;> rfl
  | ended o => cases h
  | taken a => cases h
  | cancelled => cases h

theorem wait_refit {c : Nat} (h : s.wait c = some t) :
    (s.refit room rooms).wait c = some (t.refit room rooms) := by
  obtain ⟨call, slot, hcall, hstatus, rfl⟩ := wait_held_cases h
  have hcall' : (s.refit room rooms).calls[c]? = some call := hcall
  rw [wait, hcall']
  simp only [Option.bind_eq_bind, Option.bind_some, hstatus]
  rfl

theorem perform_refit {a : Act} (hcalm : s.isCalm (.act a) = true)
    (hcalm' : (s.refit room rooms).isCalm (.act a) = true) (h : s.perform a = some t) :
    (s.refit room rooms).perform a = some (t.refit room rooms) := by
  cases a with
  | call target k => exact call_refit room rooms h
  | take c => exact take_refit room rooms h
  | wait c => exact wait_refit room rooms h
  | cancel c =>
    obtain rfl := Option.some.inj h
    refine congrArg some (cancel_refit room rooms ?_ ?_)
    · simpa [isCalm] using hcalm
    · simpa [isCalm] using hcalm'
  | closeClient i => exact closeClient_refit room rooms h
  | closeStore =>
    obtain rfl := Option.some.inj h
    rfl
  | killClient i => cases hcalm
  | killStore => cases hcalm

/-! ## Steps and runs -/

theorem step_refit {l : Label} {es : List Event} (hcalm : s.isCalm l = true)
    (hcalm' : (s.refit room rooms).isCalm l = true) (h : s.step l = some (t, es)) :
    (s.refit room rooms).step l = some (t.refit room rooms, es) := by
  cases l with
  | act a =>
    obtain ⟨hact, rfl⟩ := step_act h
    rw [step, perform_refit room rooms hcalm hcalm' hact]
    rfl
  | move mv =>
    obtain ⟨e, hfire, rfl⟩ := step_move h
    rw [step, fire_refit room rooms hfire]
    rfl

/-- A sedate run is possible at all depths at which it is sedate, and it is the same run. -/
theorem run_refit {labels : List Label} {es : List Event} (hsedate : s.sedate labels = true)
    (hsedate' : (s.refit room rooms).sedate labels = true) (h : s.run labels = some (t, es)) :
    (s.refit room rooms).run labels = some (t.refit room rooms, es) := by
  induction labels generalizing s es with
  | nil =>
    obtain ⟨rfl, rfl⟩ := Prod.mk.inj (Option.some.inj h)
    rfl
  | cons l rest ih =>
    obtain ⟨u, now, later, hstep, hrest, rfl⟩ := run_cons h
    rw [sedate, Bool.and_eq_true] at hsedate hsedate'
    have hstep' := step_refit room rooms hsedate.1 hsedate'.1 hstep
    have hlater := hsedate.2
    have hlater' := hsedate'.2
    rw [hstep] at hlater
    rw [hstep'] at hlater'
    rw [run, hstep']
    simp [ih hlater hlater' hrest]

theorem run_split {early late : List Label} {es : List Event}
    (h : s.run (early ++ late) = some (t, es)) : ∃ u before after,
      s.run early = some (u, before) ∧ u.run late = some (t, after) ∧ es = before ++ after := by
  induction early generalizing s es with
  | nil => exact ⟨s, [], es, rfl, h, rfl⟩
  | cons l rest ih =>
    obtain ⟨v, now, later, hstep, hlater, rfl⟩ := run_cons h
    obtain ⟨u, before, after, hearly, hlate, rfl⟩ := ih hlater
    refine ⟨u, now ++ before, after, ?_, hlate, (List.append_assoc _ _ _).symm⟩
    rw [run, hstep]
    simp [hearly]

theorem sedate_of_append {early late : List Label} (h : s.sedate (early ++ late) = true) :
    s.sedate early = true := by
  induction early generalizing s with
  | nil => rfl
  | cons l rest ih =>
    rw [List.cons_append, sedate, Bool.and_eq_true] at h
    rw [sedate, Bool.and_eq_true]
    refine ⟨h.1, ?_⟩
    have hrest := h.2
    cases hstep : s.step l with
    | none => rfl
    | some next =>
      rw [hstep] at hrest
      exact ih hrest

theorem atRest_refit : (s.refit room rooms).atRest = s.atRest := by
  have hfire : ∀ (s : Cluster) room rooms mv, (s.refit room rooms).fire mv = none →
      s.fire mv = none := by
    intro s room rooms mv hnone
    cases h : s.fire mv with
    | none => rfl
    | some next =>
      rw [fire_refit room rooms (t := next.1) (e := next.2) h] at hnone
      cases hnone
  rw [Bool.eq_iff_iff, atRest_iff, atRest_iff]
  constructor
  · exact fun h mv => hfire s room rooms mv (h mv)
  · intro h mv
    refine hfire (s.refit room rooms) s.keeper.inbox.room s.rooms mv ?_
    rw [refit_refit_self]
    exact h mv

/-- Clusters with the same clients start in the same way. -/
theorem start_refit {setup setup' : Setup}
    (hnames : setup'.clients.map (·.name) = setup.clients.map (·.name)) :
    start setup' = (start setup).refit (start setup').keeper.inbox.room (start setup').rooms := by
  refine eq_refit rfl (fun i => ?_) rfl
  have hname := congrArg (fun names => names[i]?) hnames
  simp only [List.getElem?_map] at hname
  simp only [rooms, start, List.getElem?_map]
  cases hi : setup'.clients[i]? with
  | none =>
    rw [hi] at hname
    simp [Option.map_eq_none_iff.mp hname.symm]
  | some client =>
    rw [hi] at hname
    obtain ⟨other, hother, hsame⟩ := Option.map_eq_some_iff.mp hname.symm
    simp [hother, Member.start, Member.refit, Inbox.refit, hsame]

end Cluster

end Custody
