import Custody.Proofs.Away.Steps

/-!
# A departure nobody notices

The caller of an action that is in a client's queue, in its hands or with the store may go away or
stay. Whatever the actors and all other callers do afterwards, they can do in both cases, with the
same events and the same cluster but for that one call. A caller that stays and waits has to take
note of its reply as soon as it arrives, for until then it keeps a handle on the client; that is all
the two runs differ in.
-/

namespace Custody

/-- What is done by all but the caller of `c`. -/
def othersDo (c : Nat) (labels : List Label) : List Label := labels.filter fun l => !l.byCaller c

namespace Cluster

/-- The two clusters differ in call `c` at most. -/
structure EqualBut (c : Nat) (s t : Cluster) : Prop where
  keeper : s.keeper = t.keeper
  members : s.members = t.members
  calls : ∀ d, d ≠ c → s.calls[d]? = t.calls[d]?

/-- In one run the caller of `c` goes away at once, in the other it stays, and all others do and see
the same. In the end both clusters are at rest or neither is. -/
def KeepsPace (s : Cluster) (c : Nat) (gone stays : List Label) : Prop :=
  ∃ t u es now, (s.cancel c).run gone = some (t, es) ∧ s.run stays = some (u, now) ∧
    .act (.cancel c) ∉ stays ∧ othersDo c stays = othersDo c gone ∧ othersSee c now = es ∧
    EqualBut c t u ∧ t.atRest = u.atRest

/-- The caller of `c` has gone away in one run of `s`. In the other it stays, and has taken note of
all it has heard. -/
structure InStep (s : Cluster) (c : Nat) (gone stays : List Label) (u : Cluster)
    (now : List Event) : Prop where
  staying : s.run stays = some (u, now)
  stayed : .act (.cancel c) ∉ stays
  noted : u.finish c = none
  going : (s.abandon c).run gone = some (u.abandon c, othersSee c now)
  alike : othersDo c stays = othersDo c gone

variable {setup : Setup} {s t u : Cluster} {l : Label} {labels gone stays : List Label}
  {es now : List Event} {c i : Nat} {call : Call} {act : Action} {manner : Manner}

theorem equalBut_abandon (s : Cluster) (c : Nat) : EqualBut c (s.abandon c) s where
  keeper := rfl
  members := rfl
  calls _ hd := calls_abandon_of_ne hd

theorem othersSee_append (c : Nat) (es now : List Event) :
    othersSee c (es ++ now) = othersSee c es ++ othersSee c now := List.filter_append ..

theorem othersDo_append (c : Nat) (labels more : List Label) :
    othersDo c (labels ++ more) = othersDo c labels ++ othersDo c more := List.filter_append ..

theorem othersDo_cons_of_caller (hown : l.byCaller c = true) (rest : List Label) :
    othersDo c (l :: rest) = othersDo c rest := List.filter_cons_of_neg (by simp [hown])

theorem othersDo_cons_of_other (hown : l.byCaller c = false) (rest : List Label) :
    othersDo c (l :: rest) = l :: othersDo c rest := List.filter_cons_of_pos (by simp [hown])

theorem Directed.run (directed : s.Directed c) (h : s.run labels = some (t, es)) :
    t.Directed c :=
  run_induction (A := fun _ => True) (P := fun u _ => u.Directed c)
    (fun _ _ _ _ _ _ hu hstep => hu.step hstep) (fun _ _ => trivial) [] directed h

/-! ## At rest -/

/-- While the caller has nothing to take note of, nobody can move with it who could not without. -/
theorem atRest_abandon (directed : s.Directed c) (hnoted : s.finish c = none) :
    (s.abandon c).atRest = s.atRest := by
  rw [Bool.eq_iff_iff, atRest_iff, atRest_iff]
  constructor
  · intro hrest mv
    cases hfire : s.fire mv with
    | none => rfl
    | some p =>
      cases hown : Label.byCaller c (.move mv) with
      | true =>
        obtain hl | hl | hl | hl := Label.of_byCaller hown
        · cases hl
        · cases hl
        · cases hl
        · obtain rfl := Label.move.inj hl
          cases hnoted.symm.trans hfire
      | false =>
        obtain ⟨e, hmoves, _⟩ := step_move (step_of_stays directed hown (step_of_fire hfire))
        cases (hrest mv).symm.trans hmoves
  · intro hrest mv
    cases hfire : (s.abandon c).fire mv with
    | none => rfl
    | some p =>
      have hstep := step_of_fire hfire
      cases hown : Label.byCaller c (.move mv) with
      | true => cases (step_of_absent hstep hown).2
      | false =>
        obtain ⟨t, hbefore, _⟩ := step_of_gone directed hnoted hown hstep
        obtain ⟨e, hmoves, _⟩ := step_move hbefore
        cases (hrest mv).symm.trans hmoves

/-! ## Runs -/

/-- The run without the caller that follows a run with it. -/
theorem run_of_stays (directed : s.Directed c) (h : s.run labels = some (t, es))
    (hstays : .act (.cancel c) ∉ labels) :
    (s.abandon c).run (othersDo c labels) = some (t.abandon c, othersSee c es) := by
  induction labels generalizing s es with
  | nil =>
    obtain ⟨rfl, rfl⟩ := Prod.mk.inj (Option.some.inj h)
    rfl
  | cons l rest ih =>
    obtain ⟨u, now, later, hstep, hrest, rfl⟩ := run_cons h
    have hl : l ≠ .act (.cancel c) := fun hl => hstays (hl ▸ List.mem_cons_self)
    have hrun := ih (directed.step hstep) hrest fun hlater =>
      hstays (List.mem_cons_of_mem l hlater)
    rw [othersSee_append]
    cases hown : l.byCaller c with
    | true =>
      obtain ⟨hsame, hunseen⟩ := step_of_caller hstep hown hl
      rw [othersDo_cons_of_caller hown, hunseen, ← hsame]
      exact hrun
    | false =>
      rw [othersDo_cons_of_other hown, othersSee_of_step hstep hown]
      have hfirst : (s.abandon c).run [l] = some (u.abandon c, now) := by
        rw [run, step_of_stays directed hown hstep]
        simp [run]
      exact run_append hfirst hrun

/-- A caller that stays takes note of what it has heard. -/
theorem inStep_noted (h : s.run stays = some (u, now)) (hstayed : .act (.cancel c) ∉ stays)
    (hgoing : (s.abandon c).run gone = some (u.abandon c, othersSee c now))
    (halike : othersDo c stays = othersDo c gone) :
    ∃ stays' v later, stays <+: stays' ∧ s.InStep c gone stays' v later := by
  cases hfinish : u.finish c with
  | none => exact ⟨stays, u, now, List.prefix_refl _, h, hstayed, hfinish, hgoing, halike⟩
  | some p =>
    have hstep : u.step (.move (.finish c)) = some (p.1, [p.2]) := step_of_fire hfinish
    have hown : Label.byCaller c (.move (.finish c)) = true := by simp [Label.byCaller]
    obtain ⟨hsame, hunseen⟩ := step_of_caller hstep hown (by simp)
    obtain ⟨call, o, hcall, _, hlast, _⟩ := finish_cases (t := p.1) (e := p.2) hfinish
    refine ⟨stays ++ [.move (.finish c)], p.1, now ++ [p.2], List.prefix_append _ _,
      run_snoc h hstep, ?_, ?_, ?_, ?_⟩
    · simpa using hstayed
    · rw [hlast, finish, calls_onCall, if_pos rfl, hcall]
      rfl
    · rw [othersSee_append, hunseen, List.append_nil, hsame]
      exact hgoing
    · rw [othersDo_append, halike, othersDo_cons_of_caller hown]
      exact List.append_nil _

/-- A step without the caller is followed by the same step with it. -/
theorem InStep.snoc (directed : s.Directed c) (inStep : s.InStep c gone stays u now)
    (h : (u.abandon c).step l = some (t, es)) :
    ∃ stays' v later, stays <+: stays' ∧ s.InStep c (gone ++ [l]) stays' v later := by
  have hgoing := run_snoc inStep.going h
  cases hown : l.byCaller c with
  | true =>
    obtain ⟨rfl, rfl⟩ := step_of_absent h hown
    refine ⟨stays, u, now, List.prefix_refl _, inStep.staying, inStep.stayed, inStep.noted, ?_, ?_⟩
    · rw [hgoing, List.append_nil]
    · rw [othersDo_append, inStep.alike, othersDo_cons_of_caller hown]
      exact (List.append_nil _).symm
  | false =>
    obtain ⟨v, hstep, rfl⟩ := step_of_gone (directed.run inStep.staying) inStep.noted hown h
    have hstayed : .act (.cancel c) ∉ stays ++ [l] := by
      have hl : l ≠ .act (.cancel c) := by
        rintro rfl
        simp [Label.byCaller] at hown
      simpa [Ne.symm hl] using inStep.stayed
    have halike : othersDo c (stays ++ [l]) = othersDo c (gone ++ [l]) := by
      rw [othersDo_append, othersDo_append, inStep.alike]
    obtain ⟨stays', w, later, hprefix, hlater⟩ := inStep_noted (run_snoc inStep.staying hstep)
      hstayed (by rw [hgoing, othersSee_append, othersSee_of_step hstep hown]) halike
    exact ⟨stays', w, later, (List.prefix_append stays [l]).trans hprefix, hlater⟩

/-- At every point of a run without the caller, the run with it has come as far. -/
theorem inStep_of_gone (directed : s.Directed c) (h : (s.abandon c).run gone = some (t, es)) :
    ∃ stays u now, s.InStep c gone stays u now ∧ ∀ early, early <+: gone →
      ∃ early' v later, early' <+: stays ∧ s.InStep c early early' v later := by
  induction gone using List.reverseRecOn generalizing t es with
  | nil =>
    have hstays : s.run [] = some (s, []) := rfl
    have hgone : (s.abandon c).run [] = some (s.abandon c, othersSee c []) := rfl
    obtain ⟨stays, u, now, _, inStep⟩ := inStep_noted hstays (by simp) hgone rfl
    refine ⟨stays, u, now, inStep, ?_⟩
    intro early hearly
    rw [List.prefix_nil.mp hearly]
    exact ⟨stays, u, now, List.prefix_refl _, inStep⟩
  | append_singleton gone l ih =>
    obtain ⟨_, _, _, hgone, hlast, _⟩ := run_split h
    obtain ⟨_, _, _, hstep, _, _⟩ := run_cons hlast
    obtain ⟨stays, u, now, inStep, hearlier⟩ := ih hgone
    obtain ⟨rfl, _⟩ := Prod.mk.inj (Option.some.inj (hgone.symm.trans inStep.going))
    obtain ⟨stays', v, later, hlonger, hnext⟩ := inStep.snoc directed hstep
    refine ⟨stays', v, later, hnext, ?_⟩
    intro early hearly
    rcases List.prefix_concat_iff.mp hearly with rfl | hbefore
    · exact ⟨stays', v, later, List.prefix_refl _, hnext⟩
    · obtain ⟨early', w, before, hprefix, hinStep⟩ := hearlier early hbefore
      exact ⟨early', w, before, hprefix.trans hlonger, hinStep⟩

theorem InStep.keepsPace (directed : s.Directed c) (hcancel : s.cancel c = s.abandon c)
    (inStep : s.InStep c gone stays u now) : s.KeepsPace c gone stays := by
  refine ⟨u.abandon c, u, othersSee c now, now, ?_, inStep.staying, inStep.stayed, inStep.alike,
    rfl, equalBut_abandon u c, atRest_abandon (directed.run inStep.staying) inStep.noted⟩
  rw [hcancel]
  exact inStep.going

/-- A queued action does not need its caller. Whatever happens when the caller has gone away can
happen while it stays, and the two runs are level at every point. Whatever happens while it stays,
to its end, can happen when it has gone away. -/
theorem departure_unnoticed (h : (start setup).run labels = some (s, es))
    (hcall : s.calls[c]? = some call) (htarget : call.target = .client i act manner)
    (hpending : call.isPending = true) (hqueued : s.isBlocked c i = false) :
    (∀ gone t now, (s.cancel c).run gone = some (t, now) → ∃ stays, s.KeepsPace c gone stays ∧
      ∀ early, early <+: gone → ∃ early', early' <+: stays ∧ s.KeepsPace c early early') ∧
    ∀ stays u now, s.run stays = some (u, now) → .act (.cancel c) ∉ stays →
      ∃ t, (s.cancel c).run (othersDo c stays) = some (t, othersSee c now) ∧ EqualBut c t u ∧
        (u.atRest = true → t.atRest = true) := by
  have directed := directed_run h hcall htarget
  have hcancel := cancel_eq_abandon hcall htarget hpending hqueued
  constructor
  · intro gone t now hgone
    rw [hcancel] at hgone
    obtain ⟨stays, u, now', inStep, hearlier⟩ := inStep_of_gone directed hgone
    refine ⟨stays, inStep.keepsPace directed hcancel, ?_⟩
    intro early hearly
    obtain ⟨early', v, later, hprefix, hinStep⟩ := hearlier early hearly
    exact ⟨early', hprefix, hinStep.keepsPace directed hcancel⟩
  · intro stays u now hstays hstayed
    rw [hcancel]
    refine ⟨u.abandon c, run_of_stays directed hstays hstayed, equalBut_abandon u c, ?_⟩
    intro hrest
    rw [atRest_abandon (directed.run hstays) (fire_of_atRest hrest (.finish c))]
    exact hrest

/-- A caller of the store owns a key, and a client waits for it whose handle has been let go of. -/
def behindOwnerLabels : List Label :=
  [.act (.call (.store .read) "k"), .move .serve, .move (.finish 0),
    .act (.call (.client 0 .get .attached) "k"), .move (.begin 0), .move .serve,
    .act (.closeClient 0)]

/-- The key is handed over, and the client stops when its caller has taken note. -/
def handedOnLabels : List Label :=
  [.act (.call (.store (.write 5)) "k"), .move .serve, .move (.resume 0), .move (.finish 1),
    .move (.leave 0), .move (.finish 2)]

/-- Nobody notices when the caller of a read that is parked goes away. -/
theorem departure_unnoticed_of_parked : ∃ s es t u now,
    (start ⟨[⟨"a", 1⟩], 1⟩).run behindOwnerLabels = some (s, es) ∧
      s.keeper.store.waiter "k" = some (.client 0) ∧ s.run handedOnLabels = some (u, now) ∧
      (s.cancel 1).run (othersDo 1 handedOnLabels) = some (t, othersSee 1 now) ∧
      EqualBut 1 t u ∧ t.atRest = true ∧
      ∃ stays, s.KeepsPace 1 (othersDo 1 handedOnLabels) stays := by
  obtain ⟨s, es, call, u, now, h, hwaits, hcall, htarget, hpending, hqueued, hstays, hrest⟩ :
      ∃ s es call u now, (start ⟨[⟨"a", 1⟩], 1⟩).run behindOwnerLabels = some (s, es) ∧
        s.keeper.store.waiter "k" = some (.client 0) ∧ s.calls[1]? = some call ∧
        call.target = .client 0 .get .attached ∧ call.isPending = true ∧
        s.isBlocked 1 0 = false ∧ s.run handedOnLabels = some (u, now) ∧ u.atRest = true :=
    ⟨_, _, _, _, _, rfl, rfl, rfl, rfl, rfl, rfl, rfl, rfl⟩
  obtain ⟨hfollow, hahead⟩ := departure_unnoticed h hcall htarget hpending hqueued
  obtain ⟨t, hgone, hequal, hquiet⟩ := hahead handedOnLabels u now hstays (by simp [handedOnLabels])
  obtain ⟨stays, hpace, _⟩ := hfollow _ t _ hgone
  exact ⟨s, es, t, u, now, h, hwaits, hstays, hgone, hequal, hquiet hrest, stays, hpace⟩

end Cluster

end Custody
