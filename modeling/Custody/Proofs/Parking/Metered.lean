import Custody.Cluster.Session
import Custody.Proofs.Cluster.Settle
import Custody.Proofs.Parking.Standing

/-!
# Waits by a clock that stands still

Where the clock goes on only while the wait sleeps, look `n` is made `n` pauses after the beginning.
If besides nobody does anything but the actors, all looks show the same, and the wait comes to what
a session says of it.
-/

namespace Custody

namespace Parking

/-- No time has gone by but in the pauses, and the wait is not in one. -/
structure Vigil.Metered (start : Nat) (v : Vigil) : Prop where
  awake : ∀ wake, v.stance ≠ .asleep wake
  looks : ∀ (n : Nat) look, v.looks[n]? = some look → look.time = start + n * pause
  next : (∀ r, v.stance ≠ .done r) → v.time = start + v.looks.length * pause

variable {k : Key} {start c n : Nat} {v : Vigil} {s t : Cluster} {sight : Sight} {r : Result}

theorem looks_snoc {looks : List Look} {time : Nat}
    (hlooks : ∀ (n : Nat) look, looks[n]? = some look → look.time = start + n * pause)
    (htime : time = start + looks.length * pause) :
    ∀ (n : Nat) look, (looks ++ [(⟨sight, time⟩ : Look)])[n]? = some look →
      look.time = start + n * pause := by
  intro n look hlook
  rcases entry_snoc hlook with hold | ⟨rfl, rfl⟩
  · exact hlooks n look hold
  · exact htime

namespace Vigil

theorem metered_begin (start : Nat) (s : Cluster) : (begin start s).Metered start where
  awake := nofun
  looks := nofun
  next _ := (congrArg (start + ·) (Nat.zero_mul pause)).symm

/-- What others do changes nothing of it. -/
theorem Metered.other (metered : v.Metered start) (cluster : Cluster) :
    Metered start { v with cluster } :=
  ⟨metered.awake, metered.looks, metered.next⟩

/-! ## The wait's turns -/

theorem run_request (hstance : v.stance = .asking) (hcall : v.cluster.call .snapshot k = some t) :
    v.run k start [.proceed] = some { v with
      cluster := t, stance := .awaiting v.cluster.calls.length, asked := v.asked + 1 } := by
  simp [run, fire, proceed, hstance, hcall]

theorem Metered.request (metered : v.Metered start) (hstance : v.stance = .asking) :
    Metered start { v with
      cluster := t, stance := .awaiting v.cluster.calls.length, asked := v.asked + 1 } where
  awake := nofun
  looks := metered.looks
  next _ := metered.next (by simp [hstance])

/-- The look decides, and the wait is over. -/
theorem run_last_look (hstance : v.stance = .awaiting c)
    (hsight : sighted? v.cluster c = some sight)
    (hjudge : judge k start ⟨sight, v.time⟩ = some r) :
    v.run k start [.proceed] =
      some { v with stance := .done r, looks := v.looks ++ [⟨sight, v.time⟩] } := by
  simp [run, fire, proceed, glance, hstance, hsight, hjudge]

theorem Metered.last_look (metered : v.Metered start) (hstance : v.stance = .awaiting c) :
    Metered start { v with stance := .done r, looks := v.looks ++ [⟨sight, v.time⟩] } where
  awake := nofun
  looks := looks_snoc metered.looks (metered.next (by simp [hstance]))
  next hopen := absurd rfl (hopen r)

/-- The look decides nothing, the wait sleeps for as long as it has to, and asks again. -/
theorem run_open_look (hstance : v.stance = .awaiting c)
    (hsight : sighted? v.cluster c = some sight)
    (hjudge : judge k start ⟨sight, v.time⟩ = none) :
    v.run k start [.proceed, .tick pause, .proceed] = some { v with
      time := v.time + pause, stance := .asking, looks := v.looks ++ [⟨sight, v.time⟩] } := by
  simp [run, fire, proceed, glance, hstance, hsight, hjudge]

theorem Metered.open_look (metered : v.Metered start) (hstance : v.stance = .awaiting c) :
    Metered start { v with
      time := v.time + pause, stance := .asking, looks := v.looks ++ [⟨sight, v.time⟩] } where
  awake := nofun
  looks := looks_snoc metered.looks (metered.next (by simp [hstance]))
  next _ := by
    rw [metered.next (by simp [hstance]), List.length_append, List.length_singleton, Nat.add_assoc,
      Nat.succ_mul]

theorem others_append (early late : List Move) :
    others (early ++ late) = others early ++ others late :=
  List.filterMap_append

/-- The actors may move at any time. -/
theorem run_actors {moves : List Custody.Move} {es : List Event}
    (h : v.cluster.run (moves.map .move) = some (t, es)) :
    v.run k start (moves.map fun m => .other (.move m)) = some { v with cluster := t } := by
  induction moves generalizing v es with
  | nil =>
    obtain rfl := (Prod.mk.inj (Option.some.inj h)).1
    rfl
  | cons m rest ih =>
    obtain ⟨u, now, later, hstep, hrest, _⟩ := Cluster.run_cons h
    have hfree : v.forbids (.move m) = false := by
      unfold forbids
      split <;> rfl
    have hfire : v.fire k start (.other (.move m)) = some { v with cluster := u } := by
      rw [fire, hfree, hstep]
      rfl
    exact Option.bind_eq_some_iff.mpr ⟨_, hfire, ih (v := { v with cluster := u }) hrest⟩

end Vigil

end Parking

/-! ## A wait that nobody disturbs -/

theorem modify_after {α : Type} (as bs : List α) (a : α) (f : α → α) :
    (as ++ a :: bs).modify as.length f = as ++ f a :: bs := by
  rw [List.modify_eq_set_getElem?]
  simp [List.set_append_right]

/-- How a snapshot request ends that is told this. -/
def Sight.outcome : Sight → Outcome
  | shown shot => .answered (.snapshot shot)
  | failed f => .failed f

namespace Cluster

variable {s t u : Cluster} {k : Key}

/-- The store's handle is there, and no message is in its inbox if it runs. -/
structure Quiet (s : Cluster) : Prop where
  handle : s.keeper.handle = true
  entries : s.keeper.running = true → s.keeper.inbox.entries = []

theorem quiet_of_atRest (hhandle : s.keeper.handle = true) (hrest : s.atRest = true) : s.Quiet :=
  ⟨hhandle, fun hrun => entries_of_serve hrun (fire_of_atRest hrest .serve)⟩

/-- Something happens to the call made last. -/
theorem onCall_enter (s : Cluster) (target : Target) (k : Key) (status : Status) (f : Call → Call) :
    (s.enter target k status).onCall s.calls.length f =
      { s with calls := s.calls ++ [f ⟨target, k, status⟩] } :=
  congrArg (fun calls => { s with calls }) (modify_after s.calls [] ⟨target, k, status⟩ f)

/-- The store finds the request alone in its inbox. -/
theorem serve_alone (hrun : s.keeper.running = true) (hentries : s.keeper.inbox.entries = [])
    (k : Key) :
    ((s.enter .snapshot k (.pending false .empty)).send (.snapshot s.calls.length)).fire .serve =
      some (s.enter .snapshot k (.pending false (.full (.snapshot s.keeper.store.snapshot))),
        .observed s.calls.length s.keeper.store.snapshot) := by
  have hshown := s.onCall_enter .snapshot k (.pending false .empty)
    (·.receive (.full (.snapshot s.keeper.store.snapshot)))
  obtain ⟨⟨⟨room, entries⟩, handle, running, store⟩, members, calls⟩ := s
  obtain rfl : running = true := hrun
  obtain rfl : entries = [] := hentries
  exact congrArg (fun t => some (t, Event.observed _ _)) hshown

theorem finish_shown (s : Cluster) (k : Key) (shot : Snapshot) :
    (s.enter .snapshot k (.pending false (.full (.snapshot shot)))).fire (.finish s.calls.length) =
      some (s.enter .snapshot k (.ended (.answered (.snapshot shot))),
        .ended s.calls.length (.answered (.snapshot shot))) := by
  rw [fire, finish, enter_new]
  exact congrArg (fun t => some (t, Event.ended _ _)) (s.onCall_enter .snapshot k _ _)

/-- A snapshot request shows what there is to see, and nothing is left of it but the call. -/
theorem Quiet.snapshot (quiet : s.Quiet) (k : Key) :
    ∃ (t : Cluster) (moves : List Move) (es : List Event), s.call .snapshot k = some t ∧
      t.run (moves.map .move) = some (s.enter .snapshot k (.ended s.sight.outcome), es) := by
  cases hrun : s.keeper.running with
  | true =>
    have hcall : s.call .snapshot k = some
        ((s.enter .snapshot k (.pending false .empty)).send (.snapshot s.calls.length)) := by
      simp [call, quiet.handle, hrun]
      rfl
    have hsight : s.sight = .shown s.keeper.store.snapshot := by simp [sight, hrun]
    refine ⟨_, [.serve, .finish s.calls.length],
      [.observed s.calls.length s.keeper.store.snapshot, .ended s.calls.length s.sight.outcome],
      hcall, ?_⟩
    simp [run, step, serve_alone hrun (quiet.entries hrun), finish_shown, hsight, Sight.outcome]
  | false =>
    refine ⟨s.enter .snapshot k (.ended s.sight.outcome), [], [], ?_, rfl⟩
    simp [call, quiet.handle, hrun, sight, Sight.outcome]

theorem sighted_enter (s : Cluster) (k : Key) (sight : Sight) :
    Parking.sighted? (s.enter .snapshot k (.ended sight.outcome)) s.calls.length = some sight := by
  rw [Parking.sighted?, ended?, enter_new]
  cases sight <;> rfl

/-- Nothing has changed but that more calls are on record. -/
structure Beyond (s t : Cluster) : Prop where
  keeper : t.keeper = s.keeper
  members : t.members = s.members
  calls : s.calls <+: t.calls

theorem Beyond.refl (s : Cluster) : s.Beyond s := ⟨rfl, rfl, List.prefix_refl _⟩

theorem Beyond.enter (h : s.Beyond t) (target : Target) (status : Status) :
    s.Beyond (t.enter target k status) :=
  ⟨h.keeper, h.members, h.calls.trans (List.prefix_append _ _)⟩

theorem Quiet.beyond (quiet : s.Quiet) (h : s.Beyond t) : t.Quiet := by
  obtain ⟨hhandle, hentries⟩ := quiet
  rw [← h.keeper] at hhandle hentries
  exact ⟨hhandle, hentries⟩

theorem Beyond.sight (h : s.Beyond t) : t.sight = s.sight := by
  rw [Cluster.sight, h.keeper, ← Cluster.sight]

end Cluster

namespace Parking

variable {k : Key} {v : Vigil} {s : Cluster} {r : Result} {n left : Nat}

theorem take_succ_steadily (sight : Sight) (start : Nat) (hn : n ≤ patience / pause) :
    (steadily sight start).take (n + 1) =
      (steadily sight start).take n ++ [⟨sight, start + n * pause⟩] := by
  have hlook : (steadily sight start)[n]? = some ⟨sight, start + n * pause⟩ := by
    simp [steadily, List.getElem?_range (Nat.lt_succ_of_le hn)]
  rw [List.take_add_one, hlook, Option.toList_some]

namespace Vigil

/-- `v` has had the first `n` looks at a store that shows the same each time, and none of them has
decided. -/
structure Steady (k : Key) (s : Cluster) (n : Nat) (v : Vigil) : Prop where
  beyond : s.Beyond v.cluster
  metered : v.Metered 0
  stance : v.stance = .asking
  looks : v.looks = (steadily s.sight 0).take n
  length : v.looks.length = n
  undecided : watch k 0 v.looks = none

/-- `v` has come to `r` by its looks. -/
structure Over (k : Key) (s : Cluster) (r : Result) (v : Vigil) : Prop where
  beyond : s.Beyond v.cluster
  metered : v.Metered 0
  stance : v.stance = .done r
  looks : v.looks <+: steadily s.sight 0
  watched : watch k 0 v.looks = some r

/-- None but the actors has done anything meanwhile. -/
def Undisturbed (moves : List Move) : Prop := ∀ l ∈ others moves, ∃ m, l = .move m

theorem Undisturbed.append {early late : List Move} (h : Undisturbed early)
    (h' : Undisturbed late) : Undisturbed (early ++ late) := by
  intro l hl
  rw [others_append] at hl
  rcases List.mem_append.mp hl with hl | hl
  · exact h l hl
  · exact h' l hl

theorem undisturbed_alone {moves : List Move} (h : others moves = []) : Undisturbed moves := by
  intro l hl
  rw [h] at hl
  cases hl

theorem undisturbed_actors (moves : List Custody.Move) :
    Undisturbed (moves.map fun m => .other (.move m)) := by
  intro l hl
  obtain ⟨mv, hmv, hlabel⟩ := List.mem_filterMap.mp hl
  obtain ⟨m, _, rfl⟩ := List.mem_map.mp hmv
  exact ⟨m, (Option.some.inj hlabel).symm⟩

/-- The wait asks, and when the actors have moved there is something to look at. -/
theorem Steady.ask (steady : v.Steady k s n) (quiet : s.Quiet) :
    ∃ moves u c, v.run k 0 moves = some u ∧ Undisturbed moves ∧ s.Beyond u.cluster ∧
      u.Metered 0 ∧ u.stance = .awaiting c ∧ sighted? u.cluster c = some s.sight ∧
      u.time = v.time ∧ u.looks = v.looks := by
  obtain ⟨t, moves, es, hcall, hrun⟩ := (quiet.beyond steady.beyond).snapshot k
  have hsight := v.cluster.sighted_enter k v.cluster.sight
  rw [steady.beyond.sight] at hsight hrun
  refine ⟨[.proceed] ++ moves.map fun m => .other (.move m), _, _, ?_,
    (undisturbed_alone rfl).append (undisturbed_actors moves), ?_,
    (steady.metered.request (t := t) steady.stance).other _, rfl, hsight, rfl, rfl⟩
  · rw [run_append, run_request steady.stance hcall, Option.bind_some]
    exact run_actors hrun
  · exact steady.beyond.enter .snapshot _

/-- The next look decides, or there will be one more. -/
theorem Steady.look (steady : v.Steady k s n) (quiet : s.Quiet) (hn : n ≤ patience / pause) :
    ∃ moves u, v.run k 0 moves = some u ∧ Undisturbed moves ∧
      ((∃ r, u.Over k s r) ∨ n < patience / pause ∧ u.Steady k s (n + 1)) := by
  obtain ⟨moves, u, c, hrun, hundisturbed, hbeyond, metered, hstance, hsight, htime, hlooks⟩ :=
    steady.ask quiet
  have hnow : u.time = 0 + n * pause := by
    rw [htime, steady.metered.next (by simp [steady.stance]), steady.length]
  have hnext : u.looks ++ [⟨s.sight, u.time⟩] = (steadily s.sight 0).take (n + 1) := by
    rw [take_succ_steadily _ _ hn, hlooks, steady.looks, hnow]
  have hwatch : watch k 0 (u.looks ++ [⟨s.sight, u.time⟩]) = judge k 0 ⟨s.sight, u.time⟩ := by
    have hnone := steady.undecided
    rw [watch] at hnone
    rw [watch, List.findSome?_append, hlooks, hnone, Option.none_or, List.findSome?_singleton]
  cases hjudge : judge k 0 ⟨s.sight, u.time⟩ with
  | some r =>
    have hlast : v.run k 0 (moves ++ [.proceed]) =
        some { u with stance := .done r, looks := u.looks ++ [⟨s.sight, u.time⟩] } := by
      rw [run_append, hrun, Option.bind_some, run_last_look hstance hsight hjudge]
    have hsame : u.looks ++ [⟨s.sight, u.time⟩] <+: steadily s.sight 0 := by
      rw [hnext]
      exact List.take_prefix _ _
    exact ⟨_, _, hlast, hundisturbed.append (undisturbed_alone rfl), Or.inl ⟨r,
      hbeyond, metered.last_look hstance, rfl, hsame, hwatch.trans hjudge⟩⟩
  | none =>
    have hearly : u.time < 0 + patience := (open_of_judge hjudge).2
    have hpause : pause = 1 := rfl
    have hopen : v.run k 0 (moves ++ [.proceed, .tick pause, .proceed]) = some { u with
        time := u.time + pause, stance := .asking, looks := u.looks ++ [⟨s.sight, u.time⟩] } := by
      rw [run_append, hrun, Option.bind_some, run_open_look hstance hsight hjudge]
    refine ⟨_, _, hopen, hundisturbed.append (undisturbed_alone rfl), Or.inr ⟨?_,
      hbeyond, metered.open_look hstance, rfl, hnext, ?_, hwatch.trans hjudge⟩⟩
    · rw [hpause] at hnow
      rw [hpause, Nat.div_one]
      omega
    · rw [List.length_append, hlooks, steady.length, List.length_singleton]

/-- Where all looks show the same, one of them decides. -/
theorem Steady.over (steady : v.Steady k s n) (quiet : s.Quiet) (hn : n ≤ patience / pause)
    (hleft : patience / pause ≤ n + left) :
    ∃ moves u r, v.run k 0 moves = some u ∧ Undisturbed moves ∧ u.Over k s r := by
  induction left generalizing v n with
  | zero =>
    obtain ⟨moves, u, hrun, hundisturbed, ⟨r, hover⟩ | ⟨hless, _⟩⟩ := steady.look quiet hn
    · exact ⟨moves, u, r, hrun, hundisturbed, hover⟩
    · omega
  | succ left ih =>
    obtain ⟨moves, u, hrun, hundisturbed, ⟨r, hover⟩ | ⟨hless, hnext⟩⟩ :=
      steady.look quiet hn
    · exact ⟨moves, u, r, hrun, hundisturbed, hover⟩
    · obtain ⟨more, w, r, hlater, hstill, hover⟩ := ih hnext hless (by omega)
      refine ⟨moves ++ more, w, r, ?_, hundisturbed.append hstill, hover⟩
      rw [run_append, hrun, Option.bind_some, hlater]

end Vigil

end Parking

/-- What a session finds when it waits for a parked reader is what a wait comes to that begins then
and that nobody disturbs. -/
theorem Session.effect_waitParked {s : Session} (hhandle : s.cluster.keeper.handle = true)
    (hrest : s.cluster.atRest = true) (k : Key) :
    ∃ r moves v, s.effect (.waitParked k) = some (s.cluster, some (.parking r)) ∧
      (Parking.Vigil.begin 0 s.cluster).run k 0 moves = some v ∧
      Parking.Vigil.Undisturbed moves ∧ v.Over k s.cluster r := by
  have steady : (Parking.Vigil.begin 0 s.cluster).Steady k s.cluster 0 :=
    ⟨.refl _, Parking.Vigil.metered_begin 0 _, rfl, rfl, rfl, rfl⟩
  obtain ⟨moves, v, r, hrun, hundisturbed, hover⟩ :=
    steady.over (Cluster.quiet_of_atRest hhandle hrest) (Nat.zero_le _)
      (Nat.le_of_eq (Nat.zero_add _).symm)
  refine ⟨r, moves, v, ?_, hrun, hundisturbed, hover⟩
  obtain ⟨rest, hrest⟩ := hover.looks
  have hwatch : Parking.watch k 0 (Parking.steadily s.cluster.sight 0) = some r := by
    have hsome := hover.watched
    rw [Parking.watch] at hsome
    rw [Parking.watch, ← hrest, List.findSome?_append, hsome, Option.some_or]
  simp [Session.effect, hhandle, hwatch]

end Custody
