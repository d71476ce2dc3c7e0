import Custody.Proofs.Cluster.Settle
import Custody.Walkthrough

/-!
# What a walkthrough can do

The moves of a walkthrough, read backwards. Each of them lowers the load, as long as the wait for a
parked reader has not gone on beyond its deadline, and it never does. So a walkthrough comes to an
end, whichever of the parties moves first.
-/

namespace Custody

namespace Cluster

variable {s t : Cluster}

/-- A call costs what its caller and its message cost. -/
theorem load_call_snapshot {k : Key} (h : s.call .snapshot k = some t) : t.load ≤ s.load + 2 := by
  obtain ⟨_, ⟨_, rfl⟩ | ⟨_, rfl⟩⟩ := call_snapshot_cases h
  · rw [load_send, load_enter]
    exact Nat.le_refl _
  · rw [load_enter]
    exact Nat.le_add_right _ 2

end Cluster

namespace Walkthrough

variable {refused : Option Nat} {u v w : Walkthrough} {moves : List Move}

/-- Whom a beat calls when its turn comes. -/
def Beat.target? : Beat → Option Target
  | call i a => some (.client i a .attached)
  | launch i => some (.client i .get (.dispatched true))
  | untilParked | inspect => some .snapshot
  | _ => none

theorem callFor_eq_some {t : Target} : w.callFor t = some v ↔ ∃ cluster,
    w.cluster.call t key = some cluster ∧
      v = { w with cluster, waiting := some w.cluster.calls.length } := by
  constructor
  · intro h
    obtain ⟨cluster, hcall, h⟩ := Option.bind_eq_some_iff.mp h
    exact ⟨cluster, hcall, (Option.some.inj h).symm⟩
  · rintro ⟨cluster, hcall, rfl⟩
    exact Option.bind_eq_some_iff.mpr ⟨cluster, hcall, rfl⟩

theorem awaitReply_cases {c : Nat} {go : ClientReply → Walkthrough}
    (h : w.awaitReply c go = some v) : (∃ r, v = go r) ∨ ∃ f, v = w.fail f := by
  obtain ⟨o, _, h⟩ := Option.bind_eq_some_iff.mp h
  split at h
  · exact Or.inl ⟨_, (Option.some.inj h).symm⟩
  · exact Or.inr ⟨_, (Option.some.inj h).symm⟩
  · cases h

theorem awaitSnapshot_cases {c : Nat} {go : Snapshot → Walkthrough}
    (h : w.awaitSnapshot c go = some v) : (∃ s, v = go s) ∨ ∃ f, v = w.fail f := by
  obtain ⟨o, _, h⟩ := Option.bind_eq_some_iff.mp h
  split at h
  · exact Or.inl ⟨_, (Option.some.inj h).symm⟩
  · exact Or.inr ⟨_, (Option.some.inj h).symm⟩
  · cases h

theorem awaitLaunch_cases {c i : Nat} {go : Walkthrough} (h : w.awaitLaunch c i go = some v) :
    v = go ∨ ∃ f, v = w.fail f := by
  unfold awaitLaunch at h
  split at h
  · exact Or.inr ⟨_, (Option.some.inj h).symm⟩
  · cases h
  · split at h
    · cases h
    · exact Or.inl (Option.some.inj h).symm

/-- One look ends the wait, or there is a pause before the next one. -/
theorem glance_cases (w : Walkthrough) (s : Snapshot) :
    w.glance s = w.next ∨ (∃ f, w.glance s = w.fail f) ∨
      (w.time < Parking.patience ∧
        w.glance s = { w with waiting := none, time := w.time + Parking.pause }) := by
  simp only [glance, Parking.judge, Nat.zero_add]
  by_cases hseen : key ∈ s.waiting
  · simp [hseen]
  · by_cases hlate : Parking.patience ≤ w.time
    · simp [hseen, hlate]
    · refine Or.inr (Or.inr ⟨Nat.not_le.mp hlate, ?_⟩)
      simp [hseen, hlate]

/-- What becomes of the first beat to do. -/
inductive Goes (refused : Option Nat) (w : Walkthrough) (b : Beat) : Walkthrough → Prop where
  | calls (target : Target) (cluster : Cluster) (hwaiting : w.waiting = none)
      (htarget : b.target? = some target) (hcall : w.cluster.call target key = some cluster) :
      Goes refused w b { w with cluster, waiting := some w.cluster.calls.length }
  | waits (i c : Nat) (cluster : Cluster) (hwaiting : w.waiting = none) (hbeat : b = .collect i)
      (hwait : w.cluster.wait c = some cluster) :
      Goes refused w b { w with cluster, waiting := some c }
  | pauses (hbeat : b = .untilParked) (hwaiting : w.waiting ≠ none)
      (hearly : w.time < Parking.patience) :
      Goes refused w b { w with waiting := none, time := w.time + Parking.pause }
  | offers (launched : Option Nat) (i : Nat) (st : Trace.Step) :
      Goes refused w b ({ w with launched }.emit refused i st)
  | passes : Goes refused w b w.next
  | lets (hbeat : b = .close) : Goes refused w b w.letGo.next
  | fails (f : Fault) : Goes refused w b (w.fail f)

theorem goes_of_call {b : Beat} {target : Target} (hwaiting : w.waiting = none)
    (htarget : b.target? = some target) (h : w.callFor target = some v) : Goes refused w b v := by
  obtain ⟨cluster, hcall, rfl⟩ := callFor_eq_some.mp h
  exact .calls target cluster hwaiting htarget hcall

theorem proceed_cases (h : w.proceed refused = some v) :
    (w.todo = [] ∧ w.ending = none ∧ v = { w with ending := some .completed }) ∨
      ∃ b rest, w.todo = b :: rest ∧ Goes refused w b v := by
  unfold proceed at h
  split at h
  · rename_i htodo
    split at h
    · rename_i hending
      exact Or.inl ⟨htodo, Option.isNone_iff_eq_none.mp hending, (Option.some.inj h).symm⟩
    · cases h
  · rename_i i a rest htodo hwaiting
    exact Or.inr ⟨_, rest, htodo, goes_of_call hwaiting rfl h⟩
  · rename_i i a rest c htodo _
    refine Or.inr ⟨_, rest, htodo, ?_⟩
    obtain ⟨r, rfl⟩ | ⟨f, rfl⟩ := awaitReply_cases h
    · exact .offers w.launched i _
    · exact .fails f
  · rename_i i rest htodo hwaiting
    exact Or.inr ⟨_, rest, htodo, goes_of_call hwaiting rfl h⟩
  · rename_i i rest c htodo _
    refine Or.inr ⟨_, rest, htodo, ?_⟩
    obtain rfl | ⟨f, rfl⟩ := awaitLaunch_cases h
    · exact .offers (some c) i _
    · exact .fails f
  · rename_i rest htodo hwaiting
    exact Or.inr ⟨_, rest, htodo, goes_of_call hwaiting rfl h⟩
  · rename_i rest c htodo hwaiting
    refine Or.inr ⟨_, rest, htodo, ?_⟩
    obtain ⟨s, rfl⟩ | ⟨f, rfl⟩ := awaitSnapshot_cases h
    · obtain hnext | ⟨f, hfail⟩ | ⟨hearly, hpause⟩ := w.glance_cases s
      · rw [hnext]
        exact .passes
      · rw [hfail]
        exact .fails f
      · rw [hpause]
        exact .pauses rfl (by simp [hwaiting]) hearly
    · exact .fails f
  · rename_i i rest htodo hwaiting
    refine Or.inr ⟨_, rest, htodo, ?_⟩
    obtain ⟨c, _, h⟩ := Option.bind_eq_some_iff.mp h
    obtain ⟨cluster, hwait, h⟩ := Option.bind_eq_some_iff.mp h
    obtain rfl := Option.some.inj h
    exact .waits i c cluster hwaiting rfl hwait
  · rename_i i rest c htodo _
    refine Or.inr ⟨_, rest, htodo, ?_⟩
    obtain ⟨r, rfl⟩ | ⟨f, rfl⟩ := awaitReply_cases h
    · exact .offers w.launched i _
    · exact .fails f
  · rename_i rest htodo hwaiting
    exact Or.inr ⟨_, rest, htodo, goes_of_call hwaiting rfl h⟩
  · rename_i rest c htodo _
    refine Or.inr ⟨_, rest, htodo, ?_⟩
    obtain ⟨s, rfl⟩ | ⟨f, rfl⟩ := awaitSnapshot_cases h
    · exact .passes
    · exact .fails f
  · rename_i rest htodo
    obtain rfl := Option.some.inj h
    exact Or.inr ⟨_, rest, htodo, .lets rfl⟩
  · rename_i rest htodo
    split at h
    · obtain rfl := Option.some.inj h
      exact Or.inr ⟨_, rest, htodo, .passes⟩
    · cases h

theorem fire_actor {m : Custody.Move} (h : w.fire refused (.actor m) = some v) :
    ∃ cluster e, w.cluster.fire m = some (cluster, e) ∧ v = { w with cluster } := by
  obtain ⟨⟨cluster, e⟩, hfire, rfl⟩ := Option.map_eq_some_iff.mp h
  exact ⟨cluster, e, hfire, rfl⟩

/-! ## The load -/

/-- The wait for a parked reader has not gone on beyond its deadline. -/
def Timely (w : Walkthrough) : Prop := w.time ≤ Parking.patience

theorem emit_cases (refused : Option Nat) (w : Walkthrough) (i : Nat) (st : Trace.Step) :
    (refused = some w.lines.length ∧ w.emit refused i st = w.fail .lineRefused) ∨
      (refused ≠ some w.lines.length ∧ w.emit refused i st =
        { w.next with lines := w.lines ++ [⟨w.cluster.nameOf i, st⟩] }) := by
  unfold emit
  split
  · rename_i hrefused
    exact Or.inl ⟨hrefused, rfl⟩
  · rename_i hrefused
    exact Or.inr ⟨hrefused, rfl⟩

theorem timely_fire {m : Move} (timely : w.Timely) (h : w.fire refused m = some v) : v.Timely := by
  cases m with
  | actor m =>
    obtain ⟨cluster, e, _, rfl⟩ := fire_actor h
    exact timely
  | proceed =>
    obtain ⟨_, _, rfl⟩ | ⟨b, rest, _, goes⟩ := proceed_cases h
    · exact timely
    · cases goes with
      | calls => exact timely
      | waits => exact timely
      | pauses _ _ hearly => exact hearly
      | offers launched i st =>
        obtain ⟨_, heq⟩ | ⟨_, heq⟩ := emit_cases refused { w with launched } i st
        · rw [heq]
          exact timely
        · rw [heq]
          exact Nat.zero_le _
      | passes => exact Nat.zero_le _
      | lets => exact Nat.zero_le _
      | fails f => exact timely

theorem load_of_todo {b : Beat} {rest : List Beat} (htodo : w.todo = b :: rest) :
    w.load = w.cluster.load + w.ending.isNone.toNat +
      (b.load w.waiting.isSome w.time + total (Beat.load false 0) rest) := by
  rw [load, htodo]

theorem load_fail (w : Walkthrough) (f : Fault) : (w.fail f).load = w.cluster.load := rfl

theorem load_next {b : Beat} {rest : List Beat} (htodo : w.todo = b :: rest) :
    w.next.load = w.cluster.load + w.ending.isNone.toNat + total (Beat.load false 0) rest := by
  have hrest : w.next.todo = rest := by
    rw [next, htodo]
    rfl
  rw [load, hrest]
  cases rest with
  | nil => rfl
  | cons b' rest => rfl

theorem load_letGo (w : Walkthrough) : w.letGo.cluster.load = w.cluster.load := by
  have hmembers : total Member.load (w.cluster.members.map fun m => { m with handle := false }) =
      total Member.load w.cluster.members := by
    induction w.cluster.members with
    | nil => rfl
    | cons m rest ih => exact congrArg (m.load + ·) ih
  simp only [Cluster.load, letGo, Cluster.closeStore]
  rw [hmembers]

theorem Beat.load_pos (b : Beat) (waiting : Bool) {time : Nat} (htime : time ≤ Parking.patience) :
    0 < b.load waiting time := by
  cases b <;> cases waiting <;>
    simp only [Beat.load, if_true, Bool.false_eq_true, if_false] <;> omega

/-- A beat that makes its call has paid for it. -/
theorem load_target {b : Beat} {target : Target} {cluster : Cluster} {time : Nat}
    (htime : time ≤ Parking.patience) (htarget : b.target? = some target)
    (hcall : w.cluster.call target key = some cluster) :
    cluster.load + b.load true time < w.cluster.load + b.load false time := by
  cases b with
  | call i a =>
    obtain rfl := Option.some.inj htarget
    have := Cluster.load_call_client hcall
    simp only [Beat.load, if_true, Bool.false_eq_true, if_false]
    omega
  | launch i =>
    obtain rfl := Option.some.inj htarget
    have := Cluster.load_call_client hcall
    simp only [Beat.load, if_true, Bool.false_eq_true, if_false]
    omega
  | untilParked =>
    obtain rfl := Option.some.inj htarget
    have := Cluster.load_call_snapshot hcall
    simp only [Beat.load, if_true, Bool.false_eq_true, if_false]
    omega
  | inspect =>
    obtain rfl := Option.some.inj htarget
    have := Cluster.load_call_snapshot hcall
    simp only [Beat.load, if_true, Bool.false_eq_true, if_false]
    omega
  | collect i => cases htarget
  | close => cases htarget
  | join => cases htarget

theorem load_proceed (timely : w.Timely) (h : w.proceed refused = some v) : v.load < w.load := by
  obtain ⟨htodo, hending, rfl⟩ | ⟨b, rest, htodo, goes⟩ := proceed_cases h
  · simp [load, htodo, hending]
  · have hpos := b.load_pos w.waiting.isSome timely
    have hload := load_of_todo htodo
    cases goes with
    | calls target cluster hwaiting htarget hcall =>
      have hless := load_target timely htarget hcall
      rw [hwaiting, Option.isSome_none] at hload
      rw [hload, load_of_todo (w := { w with cluster, waiting := _ }) htodo, Option.isSome_some]
      simp only
      omega
    | waits i c cluster hwaiting hbeat hwait =>
      obtain ⟨call, slot, hcall, hstatus, rfl⟩ := Cluster.wait_held_cases hwait
      have hsame := Cluster.load_onCall
        (g := fun c : Call => { c with status := .pending false slot }) hcall
      simp only [Call.isPending, hstatus, Status.isPending] at hsame
      subst hbeat
      rw [hwaiting, Option.isSome_none] at hload
      rw [hload, load_of_todo (w := { w with cluster := _, waiting := some c }) htodo,
        Option.isSome_some]
      simp only [Beat.load, if_true, Bool.false_eq_true, if_false]
      omega
    | pauses hbeat hwaiting hearly =>
      subst hbeat
      rw [Option.isSome_iff_ne_none.mpr hwaiting] at hload
      rw [hload, load_of_todo (w := { w with waiting := none, time := _ }) htodo]
      simp only [Beat.load, Option.isSome_none, Parking.pause, if_true, Bool.false_eq_true,
        if_false]
      omega
    | offers launched i st =>
      obtain ⟨_, heq⟩ | ⟨_, heq⟩ := emit_cases refused { w with launched } i st
      · rw [heq, load_fail]
        simp only
        omega
      · have hnext := load_next (w := { w with launched }) htodo
        rw [heq]
        change (Walkthrough.next { w with launched }).load < w.load
        rw [hnext]
        simp only
        omega
    | passes =>
      rw [load_next htodo]
      omega
    | lets =>
      rw [load_next (w := w.letGo) htodo, load_letGo]
      change w.cluster.load + w.ending.isNone.toNat + _ < _
      omega
    | fails f =>
      rw [load_fail]
      omega

theorem load_fire {m : Move} (timely : w.Timely) (h : w.fire refused m = some v) :
    v.load < w.load := by
  cases m with
  | actor m =>
    obtain ⟨cluster, e, hfire, rfl⟩ := fire_actor h
    have := Cluster.load_fire hfire
    simp only [load]
    omega
  | proceed => exact load_proceed timely h

/-! ## Runs -/

theorem run_cons {m : Move} {rest : List Move} (h : w.run refused (m :: rest) = some v) :
    ∃ u, w.fire refused m = some u ∧ u.run refused rest = some v :=
  Option.bind_eq_some_iff.mp h

/-- Whatever moves are made, there are no more of them than the load allows. -/
theorem length_add_load_le (timely : w.Timely) (h : w.run refused moves = some v) :
    moves.length + v.load ≤ w.load := by
  induction moves generalizing w with
  | nil =>
    obtain rfl := Option.some.inj h
    simp
  | cons m rest ih =>
    obtain ⟨u, hfire, hrest⟩ := run_cons h
    have hless := load_fire timely hfire
    have hlast := ih (timely_fire timely hfire) hrest
    rw [List.length_cons]
    omega

/-- What holds at the start and is kept by every move holds after a run, and each move may use what
is known of the walkthrough that makes it. -/
theorem run_induction {A P : Walkthrough → Prop}
    (known : ∀ early late u, moves = early ++ late → w.run refused early = some u → A u)
    (start : P w) (keeps : ∀ u m t, A u → P u → u.fire refused m = some t → P t)
    (h : w.run refused moves = some v) : P v := by
  induction moves generalizing w with
  | nil =>
    obtain rfl := Option.some.inj h
    exact start
  | cons m rest ih =>
    obtain ⟨u, hfire, hrest⟩ := run_cons h
    refine ih ?_ (keeps w m u (known [] (m :: rest) w rfl rfl) start hfire) hrest
    intro early late t hsplit hearly
    refine known (m :: early) late t (congrArg (m :: ·) hsplit) ?_
    exact Option.bind_eq_some_iff.mpr ⟨u, hfire, hearly⟩

/-- No time passes but in the pauses between two looks. -/
theorem time_le_of_run (h : w.run refused moves = some v) : v.time ≤ w.time + moves.length := by
  induction moves generalizing w with
  | nil =>
    obtain rfl := Option.some.inj h
    exact Nat.le_refl _
  | cons m rest ih =>
    obtain ⟨u, hfire, hrest⟩ := run_cons h
    have hstep : u.time ≤ w.time + 1 := by
      cases m with
      | actor m =>
        obtain ⟨cluster, e, _, rfl⟩ := fire_actor hfire
        exact Nat.le_succ _
      | proceed =>
        obtain ⟨_, _, rfl⟩ | ⟨b, rest, _, goes⟩ := proceed_cases hfire
        · exact Nat.le_succ _
        · cases goes with
          | offers launched i st =>
            obtain ⟨_, heq⟩ | ⟨_, heq⟩ := emit_cases refused { w with launched } i st
            · rw [heq]
              exact Nat.le_succ _
            · rw [heq]
              exact Nat.zero_le _
          | passes => exact Nat.zero_le _
          | lets => exact Nat.zero_le _
          | pauses => exact Nat.le_refl _
          | _ => exact Nat.le_succ _
    have hlast := ih hrest
    rw [List.length_cons]
    omega

end Walkthrough

end Custody
