import Custody.Proofs.Walkthrough.Outcome

/-!
# The actors first

Where the actors move whenever they can, the walkthrough finds everything settled when its turn
comes. Its first look at the store shows the parked reader, no time goes by, and it comes to its
end.
-/

namespace Custody.Walkthrough

variable {first second : Value} {depth : Nat} {refused : Option Nat} {v w : Walkthrough} {n d : Nat}
  {rest : List Beat}

/-- A walkthrough on its course for which no time has gone by, and a look that is under way will
show the parked reader. -/
structure Swift (first second : Value) (depth : Nat) (refused : Option Nat) (w : Walkthrough) :
    Prop where
  course : Course first second depth refused w
  time : w.time = 0
  sees : ∀ rest d, w.todo = .untilParked :: rest → w.waiting = some d →
    ∃ b c, Shows depth w.cluster b ∧ Stage first second True 4 (some d) (some c) b

namespace Swift

theorem prompt (swift : Swift first second depth refused w) : w.Prompt := by
  intro hlate
  rw [swift.time] at hlate
  exact absurd hlate (by decide)

theorem timely (swift : Swift first second depth refused w) : w.Timely := by
  rw [Timely, swift.time]
  exact Nat.zero_le _

theorem actor {m : Custody.Move} (swift : Swift first second depth refused w)
    (h : w.fire refused (.actor m) = some v) : Swift first second depth refused v := by
  have course := swift.course.actor h
  obtain ⟨cluster, e, hfire, rfl⟩ := fire_actor h
  refine ⟨course, swift.time, fun rest d htodo hwaiting => ?_⟩
  obtain ⟨b, c, shows, stage⟩ := swift.sees rest d htodo hwaiting
  obtain ⟨b', hgoes, shows'⟩ := shows.fire hfire
  exact ⟨b', c, shows', stage.goes hgoes⟩

/-! ## The walkthrough's turn -/

/-- The snapshot it waited for shows the parked reader. -/
theorem eq_next_of_look (swift : Swift first second depth refused w)
    (htodo : w.todo = .untilParked :: rest) (hwaiting : w.waiting = some d)
    (h : w.proceed refused = some v) : v = w.next := by
  obtain ⟨b, c, shows, stage⟩ := swift.sees rest d htodo hwaiting
  have hlook : w.awaitSnapshot d w.glance = some v := by
    rw [proceed, htodo, hwaiting] at h
    exact h
  cases stage with
  | ahead r c d hearly => exact absurd trivial hearly
  | behind r c d hsent => cases (awaitSnapshot_eq shows rfl _).symm.trans hlook
  | looked r c d leg shot hleg hseen hunseen =>
    have hshown : key ∈ shot.waiting := by
      by_contra hkey
      exact hunseen hkey trivial
    rcases hleg with rfl | rfl
    · cases (awaitSnapshot_eq shows rfl _).symm.trans hlook
    · have hglance := Option.some.inj ((awaitSnapshot_eq shows rfl _).symm.trans hlook)
      rw [← hglance, glance_of_seen hshown]

/-- When it comes to look, and nobody else can move, the reader is parked. -/
theorem parked_of_rest (course : Course first second depth refused w)
    (htodo : w.todo = .untilParked :: rest) (hwaiting : w.waiting = none)
    (hrest : ∀ m, w.cluster.fire m = none) :
    ∃ c, Shows depth w.cluster (Reading.parked.table first second c (owner first) [] none) := by
  cases course with
  | playing n s waiting launched time b shows stage hopen =>
    obtain rfl : waiting = none := hwaiting
    have hstill := shows.still hrest
    cases stage with
    | ready n p hp => cases (todo_of_lone hp).symm.trans htodo
    | launching => cases htodo
    | looking r c =>
      cases r with
      | queued => exact (hstill.tasks 0 _ _ rfl rfl).elim
      | sent => cases hstill.queue
      | parked => exact ⟨c, shows⟩
    | owning n c hn => rcases hn with rfl | rfl <;> cases htodo
    | collecting c pt hpt => cases htodo
    | resting n c hn => rcases hn with rfl | rfl <;> cases htodo
  | closing => cases htodo
  | closed => cases htodo
  | completed => cases htodo
  | refused => cases htodo

/-- No time goes by. -/
theorem time_proceed (swift : Swift first second depth refused w)
    (h : w.proceed refused = some v) : v.time = 0 := by
  obtain ⟨_, _, rfl⟩ | ⟨b, rest, htodo, goes⟩ := proceed_cases h
  · exact swift.time
  · cases goes with
    | calls => exact swift.time
    | waits => exact swift.time
    | pauses hbeat hwaiting =>
      subst hbeat
      obtain ⟨d, hd⟩ := Option.ne_none_iff_exists'.mp hwaiting
      rw [swift.eq_next_of_look htodo hd h]
      rfl
    | offers launched i st =>
      obtain ⟨_, heq⟩ | ⟨_, heq⟩ := emit_cases refused { w with launched } i st
      · rw [heq]
        exact swift.time
      · rw [heq]
        rfl
    | passes => rfl
    | lets => rfl
    | fails f => exact swift.time

theorem sees_proceed (swift : Swift first second depth refused w)
    (hrest : ∀ m, w.cluster.fire m = none) (h : w.proceed refused = some v)
    (htodo' : v.todo = .untilParked :: rest) (hwaiting' : v.waiting = some d) :
    ∃ b c, Shows depth v.cluster b ∧ Stage first second True 4 (some d) (some c) b := by
  obtain ⟨htodo, _, rfl⟩ | ⟨b, rest', htodo, goes⟩ := proceed_cases h
  · cases htodo.symm.trans htodo'
  · cases goes with
    | calls target cluster hwaiting htarget hcall =>
      obtain ⟨rfl, rfl⟩ := List.cons.inj (htodo.symm.trans htodo')
      cases htarget
      cases hwaiting'
      obtain ⟨c, shows⟩ := parked_of_rest swift.course htodo hwaiting hrest
      obtain ⟨u, hu, shows'⟩ := shows.callSnapshot rfl
      obtain rfl := Option.some.inj (hu.symm.trans hcall)
      exact ⟨_, c, shows', .behind .parked c _ (by simp)⟩
    | waits i c cluster hwaiting hbeat hwait =>
      subst hbeat
      cases htodo.symm.trans htodo'
    | pauses => cases hwaiting'
    | offers launched i st =>
      obtain ⟨_, heq⟩ | ⟨_, heq⟩ := emit_cases refused { w with launched } i st
      · rw [heq] at hwaiting'
        cases hwaiting'
      · rw [heq] at hwaiting'
        cases hwaiting'
    | passes => cases hwaiting'
    | lets => cases hwaiting'
    | fails f => cases hwaiting'

theorem proceed (swift : Swift first second depth refused w)
    (hrest : ∀ m, w.cluster.fire m = none) (h : w.proceed refused = some v) :
    Swift first second depth refused v :=
  ⟨swift.course.fire (m := .proceed) swift.prompt h, swift.time_proceed h,
    fun _ _ htodo hwaiting => swift.sees_proceed hrest h htodo hwaiting⟩

end Swift

theorem swift_start (first second : Value) (depth : Nat) (refused : Option Nat) :
    Swift first second depth refused (start first second depth) :=
  ⟨course_start first second depth refused, rfl, fun _ _ htodo => by cases htodo⟩

/-! ## To the end -/

/-- An actor moves, or none can and it is the walkthrough's turn. -/
theorem advance_cases (h : w.advance refused = some v) :
    (∃ m, w.fire refused (.actor m) = some v) ∨
      (∀ m, w.cluster.fire m = none) ∧ w.proceed refused = some v := by
  rw [advance, moves, List.findSome?_append, Option.or_eq_some_iff] at h
  rcases h with hactor | ⟨hnone, hproceed⟩
  · obtain ⟨m, hm, hfire⟩ := List.exists_of_findSome?_eq_some hactor
    obtain ⟨m, _, rfl⟩ := List.mem_map.mp hm
    exact Or.inl ⟨m, hfire⟩
  · refine Or.inr ⟨fun m => ?_, ?_⟩
    · cases hfire : w.cluster.fire m with
      | none => rfl
      | some u =>
        have hmoves : m ∈ w.cluster.moves := Cluster.mem_moves (t := u.1) (e := u.2) hfire
        have hstuck := List.findSome?_eq_none_iff.mp hnone _ (List.mem_map_of_mem hmoves)
        rw [fire, hfire] at hstuck
        cases hstuck
    · simpa [fire] using hproceed

theorem not_fire_of_advance (h : w.advance refused = none) (m : Move) :
    w.fire refused m = none := by
  refine stuck_of_moves (List.all_eq_true.mpr fun m hm => ?_) m
  rw [List.findSome?_eq_none_iff.mp h m hm]
  rfl

/-- With as many moves as the load allows, the walkthrough comes to its end. -/
theorem Swift.over_settleIn (swift : Swift first second depth refused w) (hload : w.load ≤ n) :
    Over first second refused (settleIn refused n w) := by
  induction n generalizing w with
  | zero =>
    refine swift.course.finished swift.prompt fun m => ?_
    cases hfire : w.fire refused m with
    | none => rfl
    | some v =>
      have hless := load_fire swift.timely hfire
      omega
  | succ n ih =>
    rw [settleIn]
    cases hadvance : w.advance refused with
    | none => exact swift.course.finished swift.prompt (not_fire_of_advance hadvance)
    | some v =>
      obtain ⟨m, hfire⟩ | ⟨hrest, hproceed⟩ := advance_cases hadvance
      · have hless := load_fire swift.timely hfire
        exact ih (swift.actor hfire) (by omega)
      · have hless := load_fire (m := .proceed) swift.timely hproceed
        exact ih (swift.proceed hrest hproceed) (by omega)

theorem over_perform (first second : Value) (depth : Nat) (refused : Option Nat) :
    Over first second refused (perform first second depth refused) :=
  (swift_start first second depth refused).over_settleIn (Nat.le_refl _)

end Custody.Walkthrough
