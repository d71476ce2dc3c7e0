import Custody.Proofs.Held.Voided

/-!
# Looking for a reply that is not there

A caller that has dispatched an action may look whether the reply has come, and wait for it
afterwards. A look that finds nothing changes nothing while the client runs. But a look also finds
nothing when the client was killed before it replied, and that look takes notice of it: a wait that
would have ended with an error then comes to nothing.
-/

namespace Custody

namespace Cluster

/-- The clusters in which call `c` is looked at. -/
def looks (s : Cluster) (c : Nat) : List Label → List Cluster
  | [] => []
  | l :: rest => match s.step l with
    | none => []
    | some (t, _) => if l = .act (.take c) then s :: t.looks c rest else t.looks c rest

variable {setup : Setup} {s t u : Cluster} {l : Label} {before labels rest : List Label}
  {past es now : List Event} {i c : Nat} {call : Call} {act : Action} {manner : Manner}
  {slot : Slot Answer}

theorem looks_cons_look (h : s.step (.act (.take c)) = some (t, now)) :
    s.looks c (.act (.take c) :: rest) = s :: t.looks c rest := by
  rw [looks, h]
  exact if_pos rfl

theorem looks_cons (hl : l ≠ .act (.take c)) (h : s.step l = some (t, now)) :
    s.looks c (l :: rest) = t.looks c rest := by
  rw [looks, h]
  exact if_neg hl

/-- A look that finds nothing comes before the news, or after it was clear that there will be none. -/
theorem take_empty_cases (hpeek : s.peek c = none) (h : s.take c = some t) :
    ∃ call, s.calls[c]? = some call ∧
      ((call.status = .pending true .empty ∧ t = s) ∨
        (call.status = .pending true .dropped ∨ call.status = .pending true .spent) ∧
          t = s.voided c) := by
  obtain ⟨call, hcall, h⟩ := Option.bind_eq_some_iff.mp h
  refine ⟨call, hcall, ?_⟩
  split at h
  · rename_i a hstatus
    simp [peek, hcall, hstatus] at hpeek
  · rename_i hstatus
    obtain rfl := Option.some.inj h
    refine Or.inr ⟨Or.inl hstatus, eq_voided (abandon_onCall s c _) hcall ?_⟩
    rw [calls_marked hcall, hstatus]
    rfl
  · rename_i slot hfull hdropped hstatus
    obtain rfl := Option.some.inj h
    cases slot with
    | empty => exact Or.inl ⟨hstatus, rfl⟩
    | full a => exact absurd rfl (hfull a)
    | dropped => exact absurd rfl hdropped
    | spent =>
      refine Or.inr ⟨Or.inr hstatus, eq_voided rfl hcall ?_⟩
      rw [hcall, hstatus, Status.voided, ← hstatus]
  · cases h

/-- The client of a call of which nothing has been heard runs. -/
theorem isPresent_of_open (onRecord : s.OnRecord) (hcall : s.calls[c]? = some call)
    (htarget : call.target = .client i act manner) (hopen : call.Open) :
    s.isPresent (.client i) = true := by
  obtain ⟨m, hm, hrun, _⟩ := onRecord.carried c call i act manner hcall htarget hopen
  rw [isPresent, hm]
  exact hrun

/-! ## Runs -/

/-- A look before the news is as good as none. After the first one that comes too late nothing that
others do is different, and nothing that the caller does but for the end of its wait. -/
theorem run_of_empty_looks (h : (start setup).run before = some (s, past))
    (receipt : s.Receipt i c) (hrun : s.run labels = some (t, es))
    (hempty : ∀ v ∈ s.looks c labels, v.peek c = none) :
    ∃ u es', s.run (unlooked c labels) = some (u, es') ∧
      (((∀ v ∈ s.looks c labels, v.isPresent (.client i) = true) ∧ t = u ∧ es = es') ∨
        (∃ v ∈ s.looks c labels, v.isPresent (.client i) = false) ∧
          .act (.killClient i) ∈ before ++ labels ∧ replyTo (past ++ es') c = none ∧
          t = u.voided c ∧ othersSee c es = othersSee c es') := by
  induction labels generalizing before past s es with
  | nil =>
    obtain ⟨rfl, rfl⟩ := Prod.mk.inj (Option.some.inj hrun)
    exact ⟨s, [], rfl, Or.inl ⟨nofun, rfl, rfl⟩⟩
  | cons l rest ih =>
    obtain ⟨v, now, later, hstep, hrest, rfl⟩ := run_cons hrun
    by_cases hlook : l = .act (.take c)
    · subst hlook
      rw [looks_cons_look hstep] at hempty ⊢
      rw [unlooked_cons_look]
      obtain ⟨hact, rfl⟩ := step_act hstep
      obtain ⟨call, hcall, hfound⟩ := take_empty_cases (hempty s List.mem_cons_self) hact
      obtain ⟨act, htarget⟩ := receipt.target hcall
      obtain ⟨hopen, rfl⟩ | ⟨hlost, rfl⟩ := hfound
      · have hpresent := isPresent_of_open receipt.onRecord hcall htarget ⟨true, hopen⟩
        obtain ⟨u, es', hu, hdone⟩ := ih h receipt hrest fun w hw =>
          hempty w (List.mem_cons_of_mem _ hw)
        refine ⟨u, es', hu, ?_⟩
        obtain ⟨hearly, hsame⟩ | ⟨⟨w, hw, habsent⟩, hkilled, hlast⟩ := hdone
        · exact Or.inl ⟨List.forall_mem_cons.mpr ⟨hpresent, hearly⟩, hsame⟩
        · refine Or.inr ⟨⟨w, List.mem_cons_of_mem _ hw, habsent⟩, ?_, hlast⟩
          rcases List.mem_append.mp hkilled with hkilled | hkilled
          · exact List.mem_append_left _ hkilled
          · exact List.mem_append_right _ (List.mem_cons_of_mem _ hkilled)
      · have hopeless : call.status.Hopeless := by
          rcases hlost with hstatus | hstatus
          · exact hstatus ▸ .told true
          · exact hstatus ▸ .noticed true
        obtain ⟨hnone, hkilled, hstopped⟩ := (prospect_run h hcall htarget).of_lost hlost
        obtain ⟨u, es', hu, hlast, hsee⟩ :=
          voided_run receipt (receipt.step hstep) hcall hopeless hrest
        refine ⟨u, es', hu, Or.inr ⟨⟨s, List.mem_cons_self, hstopped⟩,
          List.mem_append_left _ hkilled, ?_, hlast, hsee⟩⟩
        rw [replyTo_of_none hnone]
        exact silent_run receipt.onRecord hcall htarget hstopped hu
    · rw [looks_cons hlook hstep] at hempty ⊢
      obtain ⟨u, es', hu, hdone⟩ := ih (run_snoc h hstep) (receipt.step hstep) hrest hempty
      refine ⟨u, now ++ es', ?_, ?_⟩
      · rw [unlooked_cons hlook, run, hstep]
        simp [hu]
      · obtain ⟨hpresent, rfl, rfl⟩ | ⟨habsent, hkilled, hnone, hlast, hsee⟩ := hdone
        · exact Or.inl ⟨hpresent, rfl, rfl⟩
        · refine Or.inr ⟨habsent, by simpa using hkilled, ?_, hlast, ?_⟩
          · rwa [← List.append_assoc]
          · rw [othersSee_append, othersSee_append, hsee]

/-! ## Waits -/

/-- A caller that never looks has taken no notice, and an action in the queue is not refused. -/
structure Candid (s : Cluster) (c : Nat) (k : Key) (call : Call) : Prop where
  found : s.calls[c]? = some call
  key : call.key = k
  unspent : call.status.receipt ≠ .spent
  unrefused : ¬ call.Refused

theorem candid_run {k : Key} (receipt : s.Receipt i c) (candid : s.Candid c k call)
    (hunlooked : .act (.take c) ∉ labels) (h : s.run labels = some (t, es)) :
    t.Receipt i c ∧ t.nameOf i = s.nameOf i ∧ ∃ call', t.Candid c k call' := by
  induction labels generalizing s call es with
  | nil =>
    obtain ⟨rfl, rfl⟩ := Prod.mk.inj (Option.some.inj h)
    exact ⟨receipt, rfl, call, candid⟩
  | cons l rest ih =>
    obtain ⟨u, now, later, hstep, hrest, rfl⟩ := run_cons h
    have hlook : l ≠ .act (.take c) := fun hl => hunlooked (hl ▸ List.mem_cons_self)
    obtain ⟨act, htarget⟩ := receipt.target candid.found
    obtain ⟨call', hcall', hagrees⟩ := call_after hstep candid.found
    have next : u.Candid c k call' := {
      found := hcall'
      key := hagrees.2.trans candid.key
      unspent hspent := candid.unspent
        (spent_before receipt.onRecord candid.found htarget hlook hstep hcall' hspent)
      unrefused hrefused := candid.unrefused
        (refused_before receipt.onRecord candid.found htarget receipt.queued hstep hcall' hrefused) }
    rw [← nameOf_step hstep]
    exact ih (receipt.step hstep) next (fun hlater => hunlooked (List.mem_cons_of_mem l hlater))
      hrest

/-- Whoever does not look ends as it should. -/
theorem Candid.ended {k : Key} {o : Outcome} (h : (start setup).run before = some (s, past))
    (receipt : s.Receipt i c) (candid : s.Candid c k call) (hended : s.ended? c = some o) :
    o = due past c (.clientDropped (s.nameOf i) k) := by
  obtain ⟨call', hcall', hstatus⟩ := ended?_eq_some.mp hended
  obtain rfl := Option.some.inj (candid.found.symm.trans hcall')
  obtain ⟨act, htarget⟩ := receipt.target candid.found
  have hunspent := candid.unspent
  cases prospect_run h candid.found htarget with
  | gone hgone => cases hstatus.symm.trans hgone
  | waits hopen =>
    obtain ⟨_, hopen⟩ := hopen
    cases hstatus.symm.trans hopen
  | told r hreply htold =>
    rw [due, hreply]
    rw [hstatus] at htold
    cases o with
    | answered a =>
      obtain rfl := Slot.full.inj htold
      rfl
    | failed f => cases htold
    | void => cases htold
  | lost hnone _ _ hlost =>
    rw [due, hnone, ← candid.key]
    rw [hstatus] at hlost hunspent
    cases hlost with
    | failed => rfl
    | void => exact absurd rfl hunspent
  | refused hrefused => exact absurd hrefused candid.unrefused

/-! ## What is reported -/

/-- How call `c` is listed among those that are open. -/
def listed? (s : Cluster) (c : Nat) : Option Session.Standing := s.calls[c]?.bind (s.standing c)

/-- A wait that ends as it should is reported. -/
theorem tells?_due {loss : Fault} (hended : s.ended? c = some (due es c loss)) :
    s.tells? c = some (due es c loss) := by
  obtain ⟨call, hcall, hstatus⟩ := ended?_eq_some.mp hended
  rw [tells?_of_call hcall, hstatus, due]
  cases replyTo es c <;> rfl

/-- A wait that comes to nothing is not, and the call is listed as before. -/
theorem reported_of_void (hvoid : s.ended? c = some .void) :
    s.tells? c = none ∧ s.listed? c = some .waiting := by
  obtain ⟨call, hcall, hstatus⟩ := ended?_eq_some.mp hvoid
  rw [tells?_of_call hcall, listed?, hcall, Option.bind_some, standing, hstatus]
  exact ⟨rfl, rfl⟩

/-- Client "a" is killed while it is parked on a key that a caller of the store has; then its own
caller looks, and waits. -/
example : ((Session.reports ⟨[⟨"a", 1⟩], 1⟩ [.call (.store .read) "k",
    .call (.client 0 .get (.dispatched true)) "k", .killClient 0, .take 1, .wait 1]).bind
      (·.getLast?)).map (fun r => (r.ended, r.opened)) = some ([], [(1, .waiting)]) := by rfl

theorem ended_voided (hended : (s.ended? c).isSome = true) :
    (s.voided c).ended? c = some .void := by
  obtain ⟨o, hended⟩ := Option.isSome_iff_exists.mp hended
  obtain ⟨call, hcall, hstatus⟩ := ended?_eq_some.mp hended
  refine ended?_eq_some.mpr ⟨_, voided_call hcall, ?_⟩
  rw [hstatus, Status.voided]

/-- A caller has dispatched an action, has its receipt, and looks for the reply as often as it
likes, always in vain, before it waits. Without the looks its wait ends with the reply, and with an
error if the client is killed before it replies, and that is reported; at rest it goes on only while
the client still has the action. The looks make no difference at all while the client runs. One look
at a client that was killed before it replied makes this difference and no other: the wait that
would end with the error is void, so that nothing is ever reported of it, and the call is listed as
one that waits. -/
theorem wait_after_empty_looks (h : (start setup).run before = some (s, past))
    (hcall : s.calls[c]? = some call) (htarget : call.target = .client i act (.dispatched true))
    (hheld : call.status = .pending true slot) (hunspent : slot ≠ .spent)
    (hqueued : s.isBlocked c i = false) (hrun : s.run labels = some (t, es))
    (hempty : ∀ v ∈ s.looks c labels, v.peek c = none) :
    ∃ u es', s.run (unlooked c labels) = some (u, es') ∧
      (∀ o, u.ended? c = some o →
        o = due (past ++ es') c (.clientDropped (s.nameOf i) call.key) ∧ u.tells? c = some o) ∧
      (u.atRest = true → ∀ call' slot', u.calls[c]? = some call' →
        call'.status = .pending false slot' →
          replyTo (past ++ es') c = none ∧ u.InHand c call') ∧
      ((∀ v ∈ s.looks c labels, v.isPresent (.client i) = true) → t = u ∧ es = es') ∧
      ((∃ v ∈ s.looks c labels, v.isPresent (.client i) = false) →
        .act (.killClient i) ∈ before ++ labels ∧ replyTo (past ++ es') c = none ∧
          t = u.voided c ∧ othersSee c es = othersSee c es' ∧
          ((u.ended? c).isSome = true →
            u.tells? c = some (.failed (.clientDropped (s.nameOf i) call.key)) ∧
              t.ended? c = some .void ∧ t.tells? c = none ∧ t.listed? c = some .waiting)) := by
  have receipt : s.Receipt i c :=
    ⟨onRecord_run (onRecord_start setup) h, ⟨call, act, hcall, htarget⟩, hqueued⟩
  have candid : s.Candid c call.key call := by
    refine ⟨hcall, rfl, ?_, ?_⟩
    · rwa [hheld]
    · rintro ⟨name, hended⟩
      cases hheld.symm.trans hended
  obtain ⟨u, es', hu, hdone⟩ := run_of_empty_looks h receipt hrun hempty
  have hwhole := run_append h hu
  obtain ⟨receipt', hname, call', candid'⟩ :=
    candid_run receipt candid (by simp [unlooked]) hu
  have hends : ∀ o, u.ended? c = some o →
      o = due (past ++ es') c (.clientDropped (s.nameOf i) call.key) ∧ u.tells? c = some o := by
    intro o hended
    have hdue := candid'.ended hwhole receipt' hended
    rw [hname] at hdue
    rw [hdue] at hended ⊢
    exact ⟨rfl, tells?_due hended⟩
  refine ⟨u, es', hu, hends, ?_, ?_, ?_⟩
  · intro hrest call'' slot' hcall'' hwaits
    obtain rfl := empty_of_atRest hrest hcall'' hwaits
    obtain ⟨act', htarget'⟩ := receipt'.target hcall''
    exact ⟨(prospect_run hwhole hcall'' htarget').silent ⟨false, hwaits⟩,
      receipt'.onRecord.inHand hcall'' ⟨false, hwaits⟩⟩
  · intro hearly
    obtain ⟨_, hsame⟩ | ⟨⟨v, hv, habsent⟩, _⟩ := hdone
    · exact hsame
    · cases habsent.symm.trans (hearly v hv)
  · rintro ⟨v, hv, habsent⟩
    obtain ⟨hearly, _⟩ | ⟨_, hkilled, hnone, hlast, hsee⟩ := hdone
    · cases habsent.symm.trans (hearly v hv)
    · refine ⟨hkilled, hnone, hlast, hsee, fun hover => ?_⟩
      have hvoid : t.ended? c = some .void := by
        rw [hlast]
        exact ended_voided hover
      obtain ⟨o, hended⟩ := Option.isSome_iff_exists.mp hover
      obtain ⟨rfl, htells⟩ := hends o hended
      rw [due, hnone] at htells
      exact ⟨htells, hvoid, reported_of_void hvoid⟩

/-- A client that nobody keeps waiting is looked at before and after it has asked the store. -/
def earlyLabels : List Label :=
  [.act (.take 0), .move (.begin 0), .act (.take 0), .move .serve, .move (.resume 0), .act (.wait 0),
    .move (.finish 0)]

/-- A caller of the store owns a key, which a client is told to get. -/
def parkedLabels : List Label :=
  [.act (.call (.store .read) "k"), .move .serve, .move (.finish 0),
    .act (.call (.client 0 .get (.dispatched true)) "k"), .move (.begin 0), .move .serve]

/-- The client is killed while it waits for the key, and only then its caller looks. -/
def lateLabels : List Label :=
  [.act (.killClient 0), .act (.take 1), .act (.wait 1), .move (.finish 1)]

/-- Early looks leave the caller its reply, and a late one takes its error from it. -/
theorem wait_after_empty_looks_of_two :
    (∃ s past t es, (start ⟨[⟨"a", 1⟩], 1⟩).run
        [.act (.call (.client 0 .get (.dispatched true)) "k")] = some (s, past) ∧
      s.run earlyLabels = some (t, es) ∧ s.run (unlooked 0 earlyLabels) = some (t, es) ∧
      t.tells? 0 = some (.answered (.client (.fetched 0)))) ∧
    ∃ s past t es u es', (start ⟨[⟨"a", 1⟩], 1⟩).run parkedLabels = some (s, past) ∧
      s.run lateLabels = some (t, es) ∧ s.run (unlooked 1 lateLabels) = some (u, es') ∧
      t.ended? 1 = some .void ∧ t.tells? 1 = none ∧ t.listed? 1 = some .waiting ∧
      u.tells? 1 = some (.failed (.clientDropped "a" "k")) := by
  constructor
  · obtain ⟨s, past, call, t, es, h, hcall, htarget, hheld, hqueued, hrun, hempty, hearly, htells⟩ :
        ∃ s past call t es, (start ⟨[⟨"a", 1⟩], 1⟩).run
            [.act (.call (.client 0 .get (.dispatched true)) "k")] = some (s, past) ∧
          s.calls[0]? = some call ∧ call.target = .client 0 .get (.dispatched true) ∧
          call.status = .pending true .empty ∧ s.isBlocked 0 0 = false ∧
          s.run earlyLabels = some (t, es) ∧
          ((s.looks 0 earlyLabels).all fun v => (v.peek 0).isNone) = true ∧
          ((s.looks 0 earlyLabels).all fun v => v.isPresent (.client 0)) = true ∧
          t.tells? 0 = some (.answered (.client (.fetched 0))) :=
      ⟨_, _, _, _, _, rfl, rfl, rfl, rfl, rfl, rfl, rfl, rfl, rfl⟩
    obtain ⟨u, es', hu, _, _, hsame, _⟩ := wait_after_empty_looks h hcall htarget hheld nofun hqueued
      hrun (by simpa using hempty)
    obtain ⟨rfl, rfl⟩ := hsame (by simpa using hearly)
    exact ⟨s, past, t, es, h, hrun, hu, htells⟩
  · obtain ⟨s, past, call, t, es, h, hcall, htarget, hkey, hheld, hqueued, hrun, hempty, habsent,
        hname, hwithout⟩ :
        ∃ s past call t es, (start ⟨[⟨"a", 1⟩], 1⟩).run parkedLabels = some (s, past) ∧
          s.calls[1]? = some call ∧ call.target = .client 0 .get (.dispatched true) ∧
          call.key = "k" ∧ call.status = .pending true .empty ∧ s.isBlocked 1 0 = false ∧
          s.run lateLabels = some (t, es) ∧
          ((s.looks 1 lateLabels).all fun v => (v.peek 1).isNone) = true ∧
          ((s.looks 1 lateLabels).any fun v => !v.isPresent (.client 0)) = true ∧
          s.nameOf 0 = "a" ∧
          ((s.run (unlooked 1 lateLabels)).bind fun p => p.1.ended? 1).isSome = true :=
      ⟨_, _, _, _, _, rfl, rfl, rfl, rfl, rfl, rfl, rfl, rfl, rfl, rfl, rfl⟩
    obtain ⟨u, es', hu, _, _, _, hlate⟩ := wait_after_empty_looks h hcall htarget hheld nofun
      hqueued hrun (by simpa using hempty)
    obtain ⟨_, _, _, _, hlast⟩ := hlate (by simpa using habsent)
    rw [hu] at hwithout
    obtain ⟨htells, hvoid, hsilent, hlisted⟩ := hlast hwithout
    rw [hname, hkey] at htells
    exact ⟨s, past, t, es, u, es', h, hrun, hu, hvoid, hsilent, hlisted, htells⟩

/-- Not every wait is reported to end as it would have without the looks. -/
theorem not_spared_by_empty_looks : ¬ ∀ (setup : Setup) (before labels : List Label)
    (s t u : Cluster) (past es es' : List Event) (i c : Nat) (call : Call) (act : Action),
    (start setup).run before = some (s, past) → s.calls[c]? = some call →
      call.target = .client i act (.dispatched true) → call.status = .pending true .empty →
      s.isBlocked c i = false → s.run labels = some (t, es) →
      (∀ v ∈ s.looks c labels, v.peek c = none) →
      s.run (unlooked c labels) = some (u, es') → t.tells? c = u.tells? c := by
  intro hspared
  obtain ⟨s, past, call, t, es, u, es', h, hcall, htarget, hheld, hqueued, hrun, hempty, hu, hsilent,
      hfailed⟩ :
      ∃ s past call t es u es', (start ⟨[⟨"a", 1⟩], 1⟩).run parkedLabels = some (s, past) ∧
        s.calls[1]? = some call ∧ call.target = .client 0 .get (.dispatched true) ∧
        call.status = .pending true .empty ∧ s.isBlocked 1 0 = false ∧
        s.run lateLabels = some (t, es) ∧
        ((s.looks 1 lateLabels).all fun v => (v.peek 1).isNone) = true ∧
        s.run (unlooked 1 lateLabels) = some (u, es') ∧ t.tells? 1 = none ∧
        u.tells? 1 = some (.failed (.clientDropped "a" "k")) :=
    ⟨_, _, _, _, _, _, _, rfl, rfl, rfl, rfl, rfl, rfl, rfl, rfl, rfl, rfl⟩
  have hsame := hspared _ _ _ s t u past es es' 0 1 call .get h hcall htarget hheld hqueued hrun
    (by simpa using hempty) hu
  rw [hsilent, hfailed] at hsame
  cases hsame

end Cluster

end Custody
