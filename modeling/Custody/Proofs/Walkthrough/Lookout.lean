import Custody.Proofs.Parking.Metered
import Custody.Proofs.Parking.Outcome
import Custody.Proofs.Walkthrough.Moves

/-!
# The wait in a walkthrough

A walkthrough that waits for a parked reader keeps a wait like any other, by a clock that goes on
only between two looks. A move of the walkthrough is one move of the wait; only a look that decides
nothing is three, since the pause after it is over at once. What the wait comes to is what the
walkthrough goes on with.
-/

namespace Custody

/-! ## The cluster of a walkthrough -/

def Member.letGo (m : Member) : Member := { m with handle := false }

namespace Cluster

/-- The handles on the first `n` members are let go of one by one. -/
theorem reaches_closeClients (s : Cluster) {n : Nat} (hn : n ≤ s.members.length) :
    s.Reaches { s with
      members := (s.members.take n).map Member.letGo ++ s.members.drop n } := by
  induction n with
  | zero => exact .refl s
  | succ n ih =>
    refine (ih (Nat.le_of_succ_le hn)).trans (reaches_perform (a := .closeClient n) ?_)
    have hfirst : ((s.members.take n).map Member.letGo).length = n := by
      rw [List.length_map, List.length_take_of_le (Nat.le_of_succ_le hn)]
    have hrest : s.members.drop n = s.members[n] :: s.members.drop (n + 1) :=
      List.drop_eq_getElem_cons hn
    have hclose : n < ((s.members.take n).map Member.letGo ++ s.members.drop n).length := by
      rw [hrest, List.length_append, hfirst, List.length_cons]
      omega
    have hmodify := modify_after ((s.members.take n).map Member.letGo) (s.members.drop (n + 1))
      s.members[n] Member.letGo
    rw [perform, closeClient, if_pos hclose]
    rw [hfirst, ← hrest] at hmodify
    rw [List.take_succ_eq_append_getElem hn, List.map_append, List.append_assoc]
    exact congrArg (fun members => some { s with members }) hmodify

end Cluster

/-- The call that a wait waits for. -/
def Parking.Stance.call? : Parking.Stance → Option Nat
  | .awaiting c => some c
  | _ => none

namespace Walkthrough

open Parking (Vigil)

variable {refused : Option Nat} {u v w : Walkthrough} {m : Move} {moves : List Move}
  {rest : List Beat} {vigil vigil' : Vigil} {c : Nat} {r : Parking.Result} {first second : Value}
  {depth : Nat}

theorem reaches_letGo (w : Walkthrough) : w.cluster.Reaches w.letGo.cluster := by
  have hclients := w.cluster.reaches_closeClients (Nat.le_refl _)
  rw [List.take_length, List.drop_length, List.append_nil] at hclients
  exact hclients.trans (Cluster.reaches_perform (a := .closeStore) rfl)

theorem cluster_emit (refused : Option Nat) (w : Walkthrough) (i : Nat) (st : Trace.Step) :
    (w.emit refused i st).cluster = w.cluster := by
  obtain ⟨_, heq⟩ | ⟨_, heq⟩ := emit_cases refused w i st
  · rw [heq]
    rfl
  · rw [heq]
    rfl

/-- A walkthrough does to its cluster only what anybody could do. -/
theorem reaches_fire (h : w.fire refused m = some v) : w.cluster.Reaches v.cluster := by
  cases m with
  | actor m =>
    obtain ⟨cluster, e, hfire, rfl⟩ := fire_actor h
    exact ⟨[.move m], [e], by simp [Cluster.run, Cluster.step, hfire]⟩
  | proceed =>
    obtain ⟨_, _, rfl⟩ | ⟨b, rest, _, goes⟩ := proceed_cases h
    · exact .refl _
    · cases goes with
      | calls target cluster _ _ hcall =>
        exact Cluster.reaches_perform (a := .call target key) hcall
      | waits i c cluster _ _ hwait => exact Cluster.reaches_perform (a := .wait c) hwait
      | offers launched i st =>
        rw [cluster_emit]
        exact .refl _
      | lets => exact w.reaches_letGo
      | _ => exact .refl _

theorem reaches_run (h : w.run refused moves = some v) : w.cluster.Reaches v.cluster := by
  induction moves generalizing w with
  | nil =>
    obtain rfl := Option.some.inj h
    exact .refl _
  | cons m rest ih =>
    obtain ⟨u, hfire, hlater⟩ := run_cons h
    exact (reaches_fire hfire).trans (ih hlater)

/-- The walkthrough is on its script, and the store's handle is there until it is let go of. -/
structure Scripted (first second : Value) (w : Walkthrough) : Prop where
  todo : w.todo <:+ script first second
  handle : .close ∈ w.todo → w.cluster.keeper.handle = true

theorem Scripted.change (scripted : w.Scripted first second) (htodo : v.todo <:+ w.todo)
    (hhandle : v.cluster.keeper.handle = w.cluster.keeper.handle) : v.Scripted first second :=
  ⟨htodo.trans scripted.todo, fun hclose => hhandle.trans (scripted.handle (htodo.mem hclose))⟩

/-- The handles are let go of once. -/
theorem Scripted.not_mem_close (scripted : w.Scripted first second)
    (htodo : w.todo = .close :: rest) : .close ∉ rest := by
  have hcount := scripted.todo.sublist.count_le .close
  have honce : (script first second).count .close = 1 := rfl
  rw [htodo, List.count_cons_self, honce] at hcount
  exact List.count_eq_zero.mp (by omega)

/-- They are let go of after the wait. -/
theorem Scripted.mem_close (scripted : w.Scripted first second)
    (htodo : w.todo = .untilParked :: rest) : .close ∈ w.todo := by
  have hends : [.close, .join] <:+ script first second := ⟨(script first second).take 9, rfl⟩
  rcases List.suffix_or_suffix_of_suffix hends scripted.todo with hlater | hearlier
  · exact hlater.mem List.mem_cons_self
  · have hwait : .untilParked ∈ [Beat.close, .join] := hearlier.mem (by simp [htodo])
    simp at hwait

theorem Scripted.fire (scripted : w.Scripted first second) (h : w.fire refused m = some v) :
    v.Scripted first second := by
  cases m with
  | actor m =>
    obtain ⟨cluster, e, hfire, rfl⟩ := fire_actor h
    exact scripted.change (List.suffix_refl _) (Cluster.handle_fire hfire)
  | proceed =>
    obtain ⟨_, _, rfl⟩ | ⟨b, rest, htodo, goes⟩ := proceed_cases h
    · exact scripted.change (List.suffix_refl _) rfl
    · cases goes with
      | calls target cluster _ _ hcall =>
        exact scripted.change (List.suffix_refl _)
          (Cluster.handle_perform (a := .call target key) (by simp) hcall)
      | waits i c cluster _ _ hwait =>
        exact scripted.change (List.suffix_refl _)
          (Cluster.handle_perform (a := .wait c) (by simp) hwait)
      | pauses => exact scripted.change (List.suffix_refl _) rfl
      | offers launched i st =>
        obtain ⟨_, heq⟩ | ⟨_, heq⟩ := emit_cases refused { w with launched } i st
        · rw [heq]
          exact scripted.change (List.nil_suffix) rfl
        · rw [heq]
          exact scripted.change (List.tail_suffix _) rfl
      | passes => exact scripted.change (List.tail_suffix _) rfl
      | lets hbeat =>
        subst hbeat
        have htail : w.letGo.next.todo = rest := congrArg List.tail htodo
        refine ⟨(List.tail_suffix _).trans scripted.todo, fun hclose => ?_⟩
        exact absurd (htail ▸ hclose) (scripted.not_mem_close htodo)
      | fails f => exact scripted.change (List.nil_suffix) rfl

theorem scripted_run (h : (start first second depth).run refused moves = some v) :
    v.Scripted first second :=
  run_induction (A := fun _ => True) (P := Scripted first second) (fun _ _ _ _ _ => trivial)
    ⟨List.suffix_refl _, fun _ => rfl⟩ (fun _ _ _ _ scripted hfire => scripted.fire hfire) h

/-! ## Its wait -/

/-- What the result of a wait makes of the walkthrough. -/
def heed (w : Walkthrough) : Parking.Result → Walkthrough
  | .parked => w.next
  | .failed f => w.fail f

/-- The walkthrough while its wait stands like this, or just after. -/
def watching (w : Walkthrough) (vigil : Vigil) : Walkthrough :=
  let meanwhile : Walkthrough :=
    { w with cluster := vigil.cluster, time := vigil.time, waiting := vigil.stance.call? }
  match vigil.stance with
  | .done r => meanwhile.heed r
  | _ => meanwhile

/-- What the actors do in a walkthrough. -/
def Move.label? : Move → Option Label
  | actor m => some (.move m)
  | proceed => none

def others (moves : List Move) : List Label := moves.filterMap Move.label?

/-- What one look makes of the walkthrough. -/
def weigh (w : Walkthrough) (sight : Sight) : Walkthrough :=
  match Parking.judge key 0 ⟨sight, w.time⟩ with
  | some r => w.heed r
  | none => { w with waiting := none, time := w.time + Parking.pause }

theorem glance_eq_weigh (w : Walkthrough) (shot : Snapshot) :
    w.glance shot = w.weigh (.shown shot) := by
  rw [glance, weigh]
  cases Parking.judge key 0 ⟨.shown shot, w.time⟩ with
  | none => rfl
  | some r => cases r <;> rfl

/-- The walkthrough looks at the snapshot, or at what became of the request. -/
theorem awaitSnapshot_glance (w : Walkthrough) (c : Nat) :
    w.awaitSnapshot c w.glance = (Parking.sighted? w.cluster c).map w.weigh := by
  rw [awaitSnapshot, Parking.sighted?]
  cases w.cluster.ended? c with
  | none => rfl
  | some o =>
    cases o with
    | answered a =>
      cases a with
      | snapshot shot => exact congrArg some (w.glance_eq_weigh shot)
      | _ => rfl
    | failed f => rfl
    | void => rfl

theorem proceed_of_asking (htodo : w.todo = .untilParked :: rest) (hwaiting : w.waiting = none) :
    w.proceed refused = w.callFor .snapshot := by
  rw [proceed, htodo, hwaiting]

theorem proceed_of_looking (htodo : w.todo = .untilParked :: rest)
    (hwaiting : w.waiting = some c) : w.proceed refused = w.awaitSnapshot c w.glance := by
  rw [proceed, htodo, hwaiting]

/-! ## One move -/

theorem watching_open (w : Walkthrough) (vigil : Vigil) (hopen : ∀ r, vigil.stance ≠ .done r) :
    w.watching vigil = { w with
      cluster := vigil.cluster, time := vigil.time, waiting := vigil.stance.call? } := by
  rw [watching]
  split
  · exact absurd ‹_› (hopen _)
  · rfl

/-- A move of the walkthrough is what the wait does in its turn. -/
theorem watching_fire (htodo : w.todo = .untilParked :: rest) (metered : vigil.Metered 0)
    (hopen : ∀ r, vigil.stance ≠ .done r) (h : (w.watching vigil).fire refused m = some v) :
    ∃ turns vigil', vigil.run key 0 turns = some vigil' ∧ vigil'.Metered 0 ∧
      Vigil.others turns = others [m] ∧ v = w.watching vigil' := by
  have hmeanwhile := watching_open w vigil hopen
  cases m with
  | actor m =>
    rw [hmeanwhile] at h
    obtain ⟨cluster, e, hfire, rfl⟩ := fire_actor h
    have hrun : vigil.cluster.run ([m].map .move) = some (cluster, [e]) := by
      simp [Cluster.run, Cluster.step, hfire]
    exact ⟨_, _, Vigil.run_actors hrun, metered.other cluster, rfl,
      (watching_open w { vigil with cluster } hopen).symm⟩
  | proceed =>
    have hbeat : (w.watching vigil).todo = .untilParked :: rest := by rw [hmeanwhile, htodo]
    have hwaiting : (w.watching vigil).waiting = vigil.stance.call? := by rw [hmeanwhile]
    rw [fire] at h
    cases hstance : vigil.stance with
    | asking =>
      rw [hstance] at hwaiting
      rw [proceed_of_asking hbeat hwaiting, hmeanwhile] at h
      obtain ⟨cluster, hcall, rfl⟩ := callFor_eq_some.mp h
      exact ⟨_, _, Vigil.run_request hstance hcall, metered.request hstance, rfl, rfl⟩
    | awaiting c =>
      rw [hstance] at hwaiting
      rw [proceed_of_looking hbeat hwaiting, awaitSnapshot_glance, hmeanwhile] at h
      obtain ⟨sight, hsight, rfl⟩ := Option.map_eq_some_iff.mp h
      rw [weigh]
      cases hjudge : Parking.judge key 0 ⟨sight, vigil.time⟩ with
      | none =>
        exact ⟨_, _, Vigil.run_open_look hstance hsight hjudge, metered.open_look hstance, rfl, rfl⟩
      | some r =>
        refine ⟨_, _, Vigil.run_last_look hstance hsight hjudge, metered.last_look hstance, rfl, ?_⟩
        cases r <;> rfl
    | asleep wake => exact absurd hstance (metered.awake wake)
    | done r => exact absurd hstance (hopen r)

/-! ## Runs -/

theorem others_cons (m : Move) (moves : List Move) :
    others (m :: moves) = others [m] ++ others moves :=
  List.filterMap_append (l := [m])

/-- The walkthrough's moves up to the end of its wait are turns of the wait. -/
theorem watching_run (htodo : w.todo = .untilParked :: rest) (metered : vigil.Metered 0)
    (hopen : ∀ r, vigil.stance ≠ .done r) (h : (w.watching vigil).run refused moves = some v) :
    ∃ early late turns vigil', moves = early ++ late ∧ vigil.run key 0 turns = some vigil' ∧
      vigil'.Metered 0 ∧ Vigil.others turns = others early ∧
      (w.watching vigil).run refused early = some (w.watching vigil') ∧
      (w.watching vigil').run refused late = some v ∧
      (late = [] ∨ ∃ r, vigil'.stance = .done r) := by
  induction moves generalizing vigil with
  | nil =>
    exact ⟨[], [], [], vigil, rfl, rfl, metered, rfl, rfl, h, Or.inl rfl⟩
  | cons m moves ih =>
    obtain ⟨u, hfire, hlater⟩ := run_cons h
    obtain ⟨turns, vigil', hturns, hmetered, hothers, rfl⟩ :=
      watching_fire htodo metered hopen hfire
    by_cases hdone : ∃ r, vigil'.stance = .done r
    · refine ⟨[m], moves, turns, vigil', rfl, hturns, hmetered, hothers, ?_, hlater, Or.inr hdone⟩
      rw [run, hfire]
      rfl
    · obtain ⟨early, late, more, last, rfl, hmore, hlast, hsame, hearly, hlate, hend⟩ :=
        ih hmetered (fun r hr => hdone ⟨r, hr⟩) hlater
      refine ⟨m :: early, late, turns ++ more, last, rfl, ?_, hlast, ?_, ?_, hlate, hend⟩
      · rw [Vigil.run_append, hturns, Option.bind_some, hmore]
      · rw [Vigil.others_append, others_cons, hothers, hsame]
      · rw [run, hfire]
        exact hearly

/-- The wait of a walkthrough comes to what follows from its looks, and they are as many as those of
any wait. The walkthrough goes on, or fails, with what it has come to. -/
theorem wait_of_walkthrough {past : List Move}
    (hpast : (start first second depth).run refused past = some w)
    (htodo : w.todo = .untilParked :: rest) (hwaiting : w.waiting = none) (htime : w.time = 0)
    (h : w.run refused moves = some v) :
    ∃ early late turns vigil, moves = early ++ late ∧
      (Vigil.begin 0 w.cluster).run key 0 turns = some vigil ∧ vigil.Metered 0 ∧
      Vigil.others turns = others early ∧ w.run refused early = some (w.watching vigil) ∧
      (w.watching vigil).run refused late = some v ∧
      (late = [] ∨ ∃ r, vigil.stance = .done r) ∧ vigil.asked ≤ 2001 ∧
      ∀ r, vigil.stance = .done r → Parking.Concludes key 0 vigil.looks r := by
  have hbegin : w.watching (Vigil.begin 0 w.cluster) = w := by
    cases w
    obtain rfl : _ = none := hwaiting
    obtain rfl : _ = 0 := htime
    rfl
  rw [← hbegin] at h
  obtain ⟨early, late, turns, vigil, hmoves, hturns, hmetered, hothers, hearly, hlate, hend⟩ :=
    watching_run htodo (Vigil.metered_begin 0 w.cluster) nofun h
  rw [hbegin] at hearly
  obtain ⟨labels, es, hlabels⟩ := reaches_run hpast
  have scripted := scripted_run hpast
  have hhandle := scripted.handle (scripted.mem_close htodo)
  have course := Vigil.course_run hlabels hhandle hturns
  refine ⟨early, late, turns, vigil, hmoves, hturns, hmetered, hothers, hearly, hlate, hend,
    course.standing.asked_le, fun r hdone => ?_⟩
  have standing := course.standing
  rw [Vigil.Standing, hdone] at standing
  obtain ⟨⟨earlier, last, settled⟩, _⟩ := standing
  exact settled.concludes fun n look hlook => ⟨_, course.seen n look hlook⟩

end Walkthrough

end Custody
