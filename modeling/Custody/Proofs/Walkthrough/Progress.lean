import Custody.Proofs.Walkthrough.Course

/-!
# Progress

From the moment at which the read on the side is launched, beat by beat: either the walkthrough
moves, or somebody else can.
-/

namespace Custody.Walkthrough

variable {first second : Value} {depth : Nat} {refused : Option Nat} {w v : Walkthrough}
  {n c d : Nat} {s : Cluster} {launched : Option Nat} {time : Nat} {shot : Snapshot}

/-! ## The wait for the parked reader -/

theorem onward_launched {r : Reading}
    (shows : Shows depth s (r.table first second c (owner first) r.message none))
    (hopen : Open refused 3) :
    Onward first second depth refused (page first second 3 s (some c) none time) := by
  have hended : s.ended? c = none := by
    refine (shows.ended_of_task (i := 0) rfl rfl).trans ?_
    cases r <;> rfl
  have hproceed : (page first second 3 s (some c) none time).proceed refused =
      some ((page first second 3 s (some c) (some c) time).emit refused 0 (.parked key)) := by
    change (page first second 3 s (some c) none time).awaitLaunch c 0 _ = _
    rw [awaitLaunch, page, hended, shows.not_blocked]
    rfl
  refine Or.inl ⟨_, hproceed, Course.emit hopen rfl ?_ fun hopen' => ?_⟩
  · rw [shows.nameOf rfl]
    rfl
  · exact .playing 4 s none (some c) 0 _ shows (.looking r c) hopen'

theorem onward_looking {r : Reading}
    (shows : Shows depth s (r.table first second c (owner first) r.message none))
    (prompt : (page first second 4 s none (some c) time).Prompt) (hopen : Open refused 4) :
    Onward first second depth refused (page first second 4 s none (some c) time) := by
  refine onward_query shows rfl rfl (fun d => ?_) hopen
  cases r with
  | queued =>
    refine .ahead .queued c d fun hlate => ?_
    -- the store knows nothing of the read
    rcases prompt hlate with ⟨command, hcommand, _⟩ | ⟨k, hk⟩
    · rw [page, shows.keeper] at hcommand
      cases hcommand
    · rw [page, shows.keeper] at hk
      simp [Reading.table, Reading.store] at hk
  | sent => exact .behind .sent c d (by simp)
  | parked => exact .behind .parked c d (by simp)

theorem glance_of_seen (h : key ∈ shot.waiting) : w.glance shot = w.next := by
  simp [glance, Parking.judge, h]

theorem glance_of_unseen (h : key ∉ shot.waiting) (hearly : ¬ Parking.patience ≤ w.time) :
    w.glance shot = { w with waiting := none, time := w.time + Parking.pause } := by
  simp [glance, Parking.judge, h, hearly]

theorem onward_looked {r : Reading} {leg : Query.Leg} (hleg : leg.Shows shot)
    (shows : Shows depth s (r.table first second c (owner first) r.message (some ⟨d, leg⟩)))
    (hseen : key ∈ shot.waiting → r = .parked)
    (hunseen : key ∉ shot.waiting → ¬ Parking.patience ≤ time) (hopen : Open refused 4) :
    Onward first second depth refused (page first second 4 s (some d) (some c) time) := by
  refine onward_snapshot (w := page ..) shows rfl rfl (fun hwaits hstill => ?_)
    fun shot' hshot => ?_
  · rcases hleg with rfl | rfl
    · exact hstill.query d shot rfl
    · exact hwaits shot rfl
  · obtain rfl : shot' = shot := by
      rcases hleg with rfl | rfl
      · cases hshot
      · exact (Query.Leg.noted.inj hshot).symm
    subst hshot
    by_cases hkey : key ∈ shot'.waiting
    · obtain rfl := hseen hkey
      rw [glance_of_seen hkey, next_page rfl]
      exact .playing 5 s none (some c) 0 _ (shows.clearQuery rfl) (.owning 5 c (Or.inl rfl)) hopen
    · rw [glance_of_unseen hkey (hunseen hkey)]
      exact .playing 4 s none (some c) (time + Parking.pause) _ (shows.clearQuery rfl)
        (.looking r c) hopen

/-! ## The hand-over -/

theorem onward_hitting {leg : Leg} (hleg : Hits first leg)
    (shows : Shows depth s (Reading.parked.table first second c (hit first d leg) [] none))
    (hopen : Open refused 5) :
    Onward first second depth refused (page first second 5 s (some d) (some c) time) := by
  have hhit : ∀ r, leg = .noted r → r = .cacheHit first := by
    intro r hr
    rcases hleg with rfl | rfl | rfl
    · cases hr
    · cases hr
    · exact (Leg.noted.inj hr).symm
  refine onward_reply (i := 1) (stepOf .get) shows rfl rfl (fun hwaits hstill => ?_)
    (fun r hr => ?_) rfl (fun r hr => .owning 6 c (Or.inr rfl)) hopen
  · have htask := hstill.tasks 1 _ _ rfl rfl
    rcases hleg with rfl | rfl | rfl
    · exact htask.elim
    · cases htask
    · exact hwaits _ rfl
  · rw [hhit r hr]
    rfl

theorem onward_handed {pt pt' : Trip.Point} (hpt : pt.Back true) (hpt' : pt'.Back false)
    (shows : Shows depth s
      (handedOver second c true pt ((Trip.put first second).seat d .attached false pt')))
    (hopen : Open refused 6) :
    Onward first second depth refused (page first second 6 s (some d) (some c) time) := by
  refine onward_reply (i := 1) (stepOf (.put second)) shows rfl rfl
    (fun hwaits hstill => ?_) (fun r hr => ?_) rfl (fun r hr => ?_) hopen
  · have htask := hstill.tasks 1 _ _ rfl rfl
    rcases hpt' with rfl | rfl | ⟨rfl, _⟩
    · cases htask
    · cases htask
    · exact hwaits _ rfl
  · obtain ⟨_, rfl⟩ := Trip.noted_of_leg (p := Trip.put first second) hr
    rfl
  · obtain ⟨rfl, _⟩ := Trip.noted_of_leg (p := Trip.put first second) hr
    exact .collecting c pt hpt

theorem onward_collecting {pt : Trip.Point} (hpt : pt.Back true)
    (shows : Shows depth s (handedOver second c true pt ⟨∅, none⟩)) (hopen : Open refused 7) :
    Onward first second depth refused (page first second 7 s none (some c) time) := by
  have hunnoted : ∀ r, (Trip.get second).leg pt ≠ .noted r := by
    intro r hr
    obtain ⟨rfl, _⟩ := Trip.noted_of_leg hr
    rcases hpt with hpt | hpt | ⟨_, hheld⟩
    · cases hpt
    · cases hpt
    · cases hheld
  obtain ⟨u, hwait, shows'⟩ := shows.wait (i := 0) rfl rfl hunnoted
  have hproceed : (page first second 7 s none (some c) time).proceed refused =
      some (page first second 7 u (some c) (some c) time) := by
    change ((s.wait c).bind fun cluster => _) = _
    rw [show s.wait c = some u from hwait]
    rfl
  refine Or.inl ⟨_, hproceed, .playing 7 u _ _ time _ shows' (.collected c pt ?_) hopen⟩
  exact hpt.imp_right fun htold => htold.imp_right fun hnoted => absurd hnoted.2 (by simp)

theorem onward_collected {pt : Trip.Point} (hpt : pt.Back false)
    (shows : Shows depth s (handedOver second c false pt ⟨∅, none⟩)) (hopen : Open refused 7) :
    Onward first second depth refused (page first second 7 s (some c) (some c) time) := by
  refine onward_reply (i := 0) (.resumed key) shows rfl rfl
    (fun hwaits hstill => ?_) (fun r hr => ?_) rfl (fun r hr => ?_) hopen
  · have htask := hstill.tasks 0 _ _ rfl rfl
    rcases hpt with rfl | rfl | ⟨rfl, _⟩
    · cases htask
    · cases htask
    · exact hwaits _ rfl
  · obtain ⟨_, rfl⟩ := Trip.noted_of_leg (p := Trip.get second) hr
    rfl
  · obtain ⟨rfl, _⟩ := Trip.noted_of_leg (p := Trip.get second) hr
    exact .resting 8 c (Or.inl rfl)

/-! ## The end -/

theorem onward_inspected {leg : Query.Leg} (hleg : leg.Shows shot)
    (shows : Shows depth s (quiet second [] (some ⟨d, leg⟩))) (hopen : Open refused 8) :
    Onward first second depth refused (page first second 8 s (some d) (some c) time) := by
  refine onward_snapshot (w := page ..) shows rfl rfl (fun hwaits hstill => ?_)
    fun shot' hshot => ?_
  · rcases hleg with rfl | rfl
    · exact hstill.query d shot rfl
    · exact hwaits shot rfl
  · subst hshot
    rw [next_page rfl]
    exact .playing 9 s none (some c) 0 _ (shows.clearQuery rfl) (.resting 9 c (Or.inr rfl)) hopen

theorem onward_closing (closing : s.Closing) (hopen : Open refused 10) :
    Onward first second depth refused (page first second 10 s none launched time) := by
  by_cases hstopped : (page first second 10 s none launched time).allStopped = true
  · have hproceed : (page first second 10 s none launched time).proceed refused =
        some (page first second 10 s none launched time).next := if_pos hstopped
    rw [next_page rfl] at hproceed
    exact Or.inl ⟨_, hproceed, .closed s launched 0 closing (allStopped_iff.mp hstopped) hopen⟩
  · refine Or.inr ⟨if_neg hstopped, fun hstuck => ?_⟩
    exact absurd (allStopped_iff.mpr (closing.stopped_of_stuck hstuck)) hstopped

theorem onward_stage {late : Prop} {waiting : Option Nat} {b : Table}
    (hlate : late = (Parking.patience ≤ time))
    (stage : Stage first second late n waiting launched b) (shows : Shows depth s b)
    (hopen : Open refused n)
    (prompt : (page first second n s waiting launched time).Prompt) :
    Onward first second depth refused (page first second n s waiting launched time) := by
  cases stage with
  | ready n p hp => exact onward_ready hp shows hopen
  | trip n p c pt hp => exact onward_trip hp shows hopen
  | launching => exact onward_call (i := 0) shows rfl rfl (fun c => .launched .queued c) hopen
  | launched r c => exact onward_launched shows hopen
  | looking r c => exact onward_looking shows prompt hopen
  | ahead r c d hearly =>
    refine onward_snapshot (w := page ..) shows rfl rfl (fun _ hstill => ?_) nofun
    cases hstill.queue
  | behind r c d hsent =>
    refine onward_snapshot (w := page ..) shows rfl rfl (fun _ hstill => ?_) nofun
    exact List.append_ne_nil_of_right_ne_nil _ (List.cons_ne_nil _ _) hstill.queue
  | looked r c d leg shot hleg hseen hunseen =>
    exact onward_looked hleg shows hseen (hlate ▸ hunseen) hopen
  | owning n c hn =>
    rcases hn with rfl | rfl
    · exact onward_call (i := 1) shows rfl rfl (fun d => .hitting c d .queued (Or.inl rfl)) hopen
    · exact onward_call (i := 1) shows rfl rfl (fun d => .giving c d) hopen
  | hitting c d leg hleg => exact onward_hitting hleg shows hopen
  | giving c d =>
    refine onward_reply (i := 1) (stepOf (.put second)) shows rfl rfl
      (fun _ hstill => ?_) nofun rfl nofun hopen
    exact (hstill.tasks 1 _ _ rfl rfl).elim
  | giveSent c d =>
    refine onward_reply (i := 1) (stepOf (.put second)) shows rfl rfl
      (fun _ hstill => ?_) nofun rfl nofun hopen
    cases hstill.queue
  | handed c d pt pt' hpt hpt' => exact onward_handed hpt hpt' shows hopen
  | collecting c pt hpt => exact onward_collecting hpt shows hopen
  | collected c pt hpt => exact onward_collected hpt shows hopen
  | resting n c hn =>
    rcases hn with rfl | rfl
    · exact onward_query shows rfl rfl (fun d => .inspecting c d) hopen
    · exact Or.inl ⟨_, rfl, .closing _ (some c) 0 (closing_letGo (w := page ..) shows) hopen⟩
  | inspecting c d =>
    refine onward_snapshot (w := page ..) shows rfl rfl (fun _ hstill => ?_) nofun
    cases hstill.queue
  | inspected c d leg shot hleg => exact onward_inspected hleg shows hopen

theorem Course.onward (course : Course first second depth refused w) (prompt : w.Prompt) :
    Onward first second depth refused w := by
  cases course with
  | playing n s waiting launched time b shows stage hopen =>
    exact onward_stage rfl stage shows hopen prompt
  | closing s launched time closing hopen => exact onward_closing closing hopen
  | closed s launched time closing stopped hopen =>
    exact Or.inl ⟨_, rfl, .completed s launched time closing stopped hopen⟩
  | completed s launched time closing stopped hopen =>
    exact Or.inr ⟨rfl, fun _ => Or.inl ⟨hopen, rfl, rfl, allStopped_iff.mpr stopped⟩⟩
  | refused n s launched time hn hrefused =>
    exact Or.inr ⟨rfl, fun _ => Or.inr ⟨n, hn, hrefused, rfl, rfl⟩⟩

end Custody.Walkthrough
