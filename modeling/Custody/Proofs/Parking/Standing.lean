import Custody.Proofs.Parking.Vigil

/-!
# How a wait stands

Look `n` cannot be before `n` milliseconds have gone by, since the wait sleeps for one after each
look that decides nothing, and a look after two seconds decides. So there are at most 2001. Every
look shows the store as it was at a moment between the request for it and the look, or it is one of
the two errors of a snapshot request.
-/

namespace Custody

/-- The sight is the error of a snapshot request, or a snapshot with `P`. -/
def Sight.Of (P : Snapshot → Prop) : Sight → Prop
  | shown shot => P shot
  | failed f => f = .snapshotNotSent ∨ f = .snapshotUnanswered

theorem Sight.Of.mono {P Q : Snapshot → Prop} {sight : Sight} (h : sight.Of P)
    (hPQ : ∀ shot, P shot → Q shot) : sight.Of Q := by
  cases sight with
  | shown shot => exact hPQ shot h
  | failed f => exact h

namespace Parking

variable {P : Snapshot → Prop} {s : Cluster} {c : Nat} {sight : Sight}

theorem sighted_of_expectant (h : s.Expectant P c) (hsight : sighted? s c = some sight) :
    sight.Of P := by
  obtain ⟨call, hcall, _, hstatus⟩ := h
  obtain ⟨target, key, status⟩ := call
  rw [sighted?, Cluster.ended?, hcall] at hsight
  cases hstatus with
  | waiting => cases hsight
  | shown => cases hsight
  | dropped => cases hsight
  | answered shot seen =>
    obtain rfl := Option.some.inj hsight
    exact seen
  | failed f hf =>
    obtain rfl := Option.some.inj hsight
    exact hf

/-- A snapshot call that has ended has come to something. -/
theorem sighted_of_ended (h : s.Expectant P c) (hended : (s.ended? c).isSome = true) :
    (sighted? s c).isSome = true := by
  obtain ⟨call, hcall, _, hstatus⟩ := h
  obtain ⟨target, key, status⟩ := call
  rw [Cluster.ended?, hcall] at hended
  rw [sighted?, Cluster.ended?, hcall]
  cases hstatus with
  | waiting => cases hended
  | shown => cases hended
  | dropped => cases hended
  | answered => rfl
  | failed => rfl

namespace Vigil

variable {k : Key} {start : Nat} {v u w : Vigil} {m : Move} {moves : List Move}

/-- The wait is not over, and its next look cannot be before `due`. -/
structure Underway (k : Key) (start : Nat) (v : Vigil) (due : Nat) : Prop where
  handle : v.cluster.keeper.handle = true
  opened : ∀ look ∈ v.looks, look.Open k start
  few : v.looks.length ≤ patience
  late : start + v.looks.length ≤ due

/-- The wait is over, with the last of its looks. -/
structure Settled (k : Key) (start : Nat) (v : Vigil) (r : Result) (earlier : List Look)
    (last : Look) : Prop where
  looks : v.looks = earlier ++ [last]
  opened : ∀ look ∈ earlier, look.Open k start
  judged : judge k start last = some r
  few : earlier.length ≤ patience

/-- How a wait stands, where `P n` holds of all that look `n` could have shown so far. -/
def Standing (k : Key) (start : Nat) (P : Nat → Snapshot → Prop) (v : Vigil) : Prop :=
  match v.stance with
  | .asking => v.Underway k start v.time ∧ v.asked = v.looks.length
  | .awaiting c => v.Underway k start v.time ∧ v.asked = v.looks.length + 1 ∧
      v.cluster.Expectant (P v.looks.length) c ∧ v.cluster.Unfiled c
  | .asleep wake => v.Underway k start wake ∧ v.asked = v.looks.length
  | .done r => (∃ earlier last, v.Settled k start r earlier last) ∧ v.asked = v.looks.length

/-- What the others did. -/
def Move.label? : Move → Option Label
  | other l => some l
  | _ => none

def others (moves : List Move) : List Label := moves.filterMap Move.label?

/-- A request for a snapshot, as the wait makes it. -/
def SnapshotRequest (k : Key) (l : Label) : Prop := l = .act (.call .snapshot k)

/-- The cluster has gone through what the others did, with the requests for snapshots in between. -/
def Watched (k : Key) (s : Cluster) (moves : List Move) (v : Vigil) : Prop :=
  ∃ labels es, s.run labels = some (v.cluster, es) ∧
    Inserted (SnapshotRequest k) (others moves) labels ∧
    labels.length = (others moves).length + v.asked

/-- What holds of a wait after every run. -/
structure Course (k : Key) (start : Nat) (s : Cluster) (moves : List Move) (v : Vigil) : Prop where
  onRecord : v.cluster.OnRecord
  watched : Watched k s moves v
  seen : ∀ (n : Nat) look, v.looks[n]? = some look →
    look.sight.Of (Caught k start (begin start s) moves n)
  standing : v.Standing k start (Caught k start (begin start s) moves)

theorem Underway.change {due due' : Nat} (h : v.Underway k start due)
    (hhandle : w.cluster.keeper.handle = v.cluster.keeper.handle) (hlooks : w.looks = v.looks)
    (hdue : due ≤ due') : w.Underway k start due' where
  handle := hhandle.trans h.handle
  opened := hlooks ▸ h.opened
  few := hlooks ▸ h.few
  late := by
    rw [hlooks]
    exact Nat.le_trans h.late hdue

theorem Standing.mono {P Q : Nat → Snapshot → Prop} (h : v.Standing k start P)
    (hPQ : ∀ n shot, P n shot → Q n shot) : v.Standing k start Q := by
  unfold Standing at h ⊢
  cases hstance : v.stance with
  | awaiting c =>
    rw [hstance] at h
    obtain ⟨underway, hasked, expectant, unfiled⟩ := h
    exact ⟨underway, hasked, expectant.mono (hPQ _), unfiled⟩
  | _ =>
    rw [hstance] at h
    exact h

/-- Each snapshot request is a look, or the wait for one. -/
theorem Standing.asked_le {P : Nat → Snapshot → Prop} (h : v.Standing k start P) :
    v.asked ≤ patience + 1 := by
  unfold Standing at h
  cases hstance : v.stance with
  | asking =>
    rw [hstance] at h
    have := h.1.few
    omega
  | awaiting c =>
    rw [hstance] at h
    have := h.1.few
    omega
  | asleep wake =>
    rw [hstance] at h
    have := h.1.few
    omega
  | done r =>
    rw [hstance] at h
    obtain ⟨⟨earlier, last, settled⟩, hasked⟩ := h
    have := settled.few
    rw [hasked, settled.looks, List.length_append, List.length_singleton]
    omega

/-! ## Moves of others -/

/-- A wait stands as before if its call does, and its handle, and no time is lost. -/
theorem Standing.change {P : Nat → Snapshot → Prop} (h : v.Standing k start P)
    (hstance : w.stance = v.stance) (hlooks : w.looks = v.looks) (hasked : w.asked = v.asked)
    (htime : v.time ≤ w.time)
    (hhandle : (∀ r, v.stance ≠ .done r) →
      w.cluster.keeper.handle = v.cluster.keeper.handle)
    (hcall : ∀ c, v.stance = .awaiting c → v.cluster.Expectant (P v.looks.length) c →
      v.cluster.Unfiled c → w.cluster.Expectant (P v.looks.length) c ∧ w.cluster.Unfiled c) :
    w.Standing k start P := by
  unfold Standing at h ⊢
  rw [hstance, hasked, hlooks]
  cases hv : v.stance with
  | asking =>
    rw [hv] at h
    exact ⟨h.1.change (hhandle (by simp [hv])) hlooks htime, h.2⟩
  | awaiting c =>
    rw [hv] at h
    obtain ⟨underway, hcount, expectant, unfiled⟩ := h
    exact ⟨underway.change (hhandle (by simp [hv])) hlooks htime, hcount,
      hcall c hv expectant unfiled⟩
  | asleep wake =>
    rw [hv] at h
    exact ⟨h.1.change (hhandle (by simp [hv])) hlooks (Nat.le_refl _), h.2⟩
  | done r =>
    rw [hv] at h
    obtain ⟨⟨earlier, last, settled⟩, hcount⟩ := h
    exact ⟨⟨earlier, last, hlooks.trans settled.looks, settled.opened, settled.judged,
      settled.few⟩, hcount⟩

theorem Standing.other {P : Nat → Snapshot → Prop} (h : v.Standing k start P)
    (onRecord : v.cluster.OnRecord) {l : Label} {cluster : Cluster} {now : List Event}
    (hfree : v.forbids l = false) (hstep : v.cluster.step l = some (cluster, now))
    (hnow : ∀ c, v.stance = .awaiting c → P v.looks.length v.cluster.keeper.store.snapshot) :
    { v with cluster }.Standing k start P := by
  refine h.change rfl rfl rfl (Nat.le_refl _) (fun hopen => ?_)
    fun c hstance expectant unfiled => ?_
  · refine Cluster.handle_step ?_ hstep
    rintro rfl
    unfold forbids at hfree
    split at hfree
    · exact hopen _ ‹_›
    · cases hfree
    · cases hfree
  · have hwaits : l ≠ .act (.cancel c) := by
      rintro rfl
      simp [forbids, hstance] at hfree
    obtain ⟨call, hcall, _⟩ := id expectant
    exact ⟨expectant.step onRecord unfiled (hnow c hstance) hwaits hstep,
      unfiled.step (List.getElem?_eq_some_iff.mp hcall).1 hstep⟩

theorem Standing.tick {P : Nat → Snapshot → Prop} (h : v.Standing k start P) (n : Nat) :
    { v with time := v.time + n }.Standing k start P :=
  h.change rfl rfl rfl (Nat.le_add_right _ n) (fun _ => rfl)
    fun _ _ expectant unfiled => ⟨expectant, unfiled⟩

/-! ## Moves of the wait -/

/-- The next look is late enough to leave room for one more, or it decides. -/
theorem Underway.slept (underway : v.Underway k start v.time) {sight : Sight}
    (hopen : Look.Open k start ⟨sight, v.time⟩) :
    Underway k start
      { v with stance := .asleep (v.time + pause), looks := v.looks ++ [⟨sight, v.time⟩] }
      (v.time + pause) := by
  have hearly : v.time < start + patience := hopen.2
  have hlate := underway.late
  have hpause : pause = 1 := rfl
  refine ⟨underway.handle, fun look hlook => ?_, ?_, ?_⟩
  · rcases List.mem_append.mp hlook with hlook | hlook
    · exact underway.opened look hlook
    · rw [List.mem_singleton.mp hlook]
      exact hopen
  · rw [List.length_append, List.length_singleton]
    omega
  · rw [List.length_append, List.length_singleton]
    omega

theorem Standing.proceed {P : Nat → Snapshot → Prop} (h : v.Standing k start P)
    (onRecord : v.cluster.OnRecord) (hproceed : v.proceed k start = some w) :
    w.Standing k start P := by
  unfold Standing at h
  cases proceed_cases hproceed with
  | asked cluster hstance hcall =>
    rw [hstance] at h
    have hhandle : cluster.keeper.handle = v.cluster.keeper.handle :=
      Cluster.handle_perform (a := .call .snapshot k) (by simp) hcall
    refine ⟨h.1.change hhandle rfl (Nat.le_refl _), congrArg (· + 1) h.2, ?_, ?_⟩
    · exact Cluster.expectant_call _ hcall
    · exact Cluster.unfiled_call onRecord hcall
  | slept c sight hstance hsight hopen =>
    rw [hstance] at h
    exact ⟨h.1.slept hopen, by simp [h.2.1]⟩
  | ended c sight r hstance hsight hjudge =>
    rw [hstance] at h
    have settled : Settled k start
        { v with stance := .done r, looks := v.looks ++ [⟨sight, v.time⟩] } r v.looks
        ⟨sight, v.time⟩ := ⟨rfl, h.1.opened, hjudge, h.1.few⟩
    exact ⟨⟨_, _, settled⟩, by simp [h.2.1]⟩
  | woke wake hstance htime =>
    rw [hstance] at h
    exact ⟨h.1.change rfl rfl htime, h.2⟩

/-! ## Runs -/

theorem watched_other {l : Label} {cluster : Cluster} {now : List Event}
    (h : Watched k s moves v) (hstep : v.cluster.step l = some (cluster, now)) :
    Watched k s (moves ++ [.other l]) { v with cluster } := by
  obtain ⟨labels, es, hrun, hinserted, hlength⟩ := h
  have hothers : others (moves ++ [.other l]) = others moves ++ [l] := by
    simp [others, Move.label?]
  refine ⟨labels ++ [l], es ++ now, Cluster.run_snoc hrun hstep, ?_, ?_⟩
  · rw [hothers]
    exact hinserted.append (.refl _ _)
  · rw [hothers, List.length_append, List.length_append, hlength]
    exact Nat.add_right_comm _ _ _

theorem course_begin {setup : Setup} {labels : List Label} {es : List Event}
    (h : (Cluster.start setup).run labels = some (s, es)) (hhandle : s.keeper.handle = true) :
    Course k start s [] (begin start s) where
  onRecord := Cluster.onRecord_run (Cluster.onRecord_start setup) h
  watched := ⟨[], [], rfl, .nil, rfl⟩
  seen n look hlook := by simp [begin] at hlook
  standing := ⟨⟨hhandle, nofun, Nat.zero_le _, Nat.le_refl _⟩, rfl⟩

theorem Course.proceed (h : Course k start s moves v) (hproceed : v.proceed k start = some w) :
    Course k start s (moves ++ [.proceed]) w := by
  have hothers : others (moves ++ [.proceed]) = others moves := by simp [others, Move.label?]
  have hmono : ∀ n shot, Caught k start (begin start s) moves n shot →
      Caught k start (begin start s) (moves ++ [.proceed]) n shot := fun _ _ hcaught =>
    hcaught.mono .proceed
  have standing := (h.standing.proceed h.onRecord hproceed).mono hmono
  have hold : ∀ (n : Nat) look, v.looks[n]? = some look →
      look.sight.Of (Caught k start (begin start s) (moves ++ [.proceed]) n) :=
    fun n look hlook => (h.seen n look hlook).mono (hmono n)
  have hnew : ∀ {c : Nat} {sight : Sight}, v.stance = .awaiting c →
      sighted? v.cluster c = some sight → ∀ (n : Nat) look,
        (v.looks ++ [(⟨sight, v.time⟩ : Look)])[n]? = some look →
          look.sight.Of (Caught k start (begin start s) (moves ++ [.proceed]) n) := by
    intro c sight hstance hsight n look hlook
    rcases entry_snoc hlook with hlook | ⟨rfl, rfl⟩
    · exact hold n look hlook
    · have hstands := h.standing
      rw [Standing, hstance] at hstands
      exact (sighted_of_expectant hstands.2.2.1 hsight).mono (hmono _)
  obtain ⟨labels, es, hrun, hinserted, hlength⟩ := id h.watched
  cases proceed_cases hproceed with
  | asked cluster hstance hcall =>
    have hstep : v.cluster.step (.act (.call .snapshot k)) = some (cluster, []) := by
      rw [Cluster.step, Cluster.perform, hcall]
      rfl
    refine ⟨Cluster.onRecord_step h.onRecord hstep,
      ⟨labels ++ [.act (.call .snapshot k)], es ++ [], Cluster.run_snoc hrun hstep, ?_, ?_⟩,
      hold, standing⟩
    · rw [hothers]
      have hrequest : SnapshotRequest k (.act (.call .snapshot k)) := rfl
      have hadded := hinserted.append (.put _ hrequest .nil)
      rwa [List.append_nil] at hadded
    · rw [hothers, List.length_append, hlength, List.length_singleton]
      rfl
  | slept c sight hstance hsight hopen =>
    exact ⟨h.onRecord, ⟨labels, es, hrun, hothers ▸ hinserted, hothers ▸ hlength⟩,
      hnew hstance hsight, standing⟩
  | ended c sight r hstance hsight hjudge =>
    exact ⟨h.onRecord, ⟨labels, es, hrun, hothers ▸ hinserted, hothers ▸ hlength⟩,
      hnew hstance hsight, standing⟩
  | woke wake hstance htime =>
    exact ⟨h.onRecord, ⟨labels, es, hrun, hothers ▸ hinserted, hothers ▸ hlength⟩, hold, standing⟩

theorem course_run {setup : Setup} {labels : List Label} {es : List Event}
    (h : (Cluster.start setup).run labels = some (s, es)) (hhandle : s.keeper.handle = true)
    (hrun : (begin start s).run k start moves = some v) : Course k start s moves v := by
  refine run_induction (P := fun moves v => Course k start s moves v)
    (course_begin h hhandle) ?_ hrun
  intro past u m w hpast course hfire
  have hmono : ∀ n shot, Caught k start (begin start s) past n shot →
      Caught k start (begin start s) (past ++ [m]) n shot := fun _ _ hcaught => hcaught.mono m
  cases m with
  | other l =>
    obtain ⟨hfree, cluster, now, hstep, rfl⟩ := other_cases hfire
    exact ⟨Cluster.onRecord_step course.onRecord hstep, watched_other course.watched hstep,
      fun n look hlook => (course.seen n look hlook).mono (hmono n),
      (course.standing.mono hmono).other course.onRecord hfree hstep
        fun c hstance => caught_now hpast hstance _⟩
  | tick n =>
    obtain rfl := Option.some.inj hfire
    have hothers : others (past ++ [.tick n]) = others past := by simp [others, Move.label?]
    refine ⟨course.onRecord, ?_, fun n look hlook => (course.seen n look hlook).mono (hmono n),
      (course.standing.mono hmono).tick n⟩
    obtain ⟨labels, es, hlabels, hinserted, hlength⟩ := course.watched
    exact ⟨labels, es, hlabels, hothers ▸ hinserted, hothers ▸ hlength⟩
  | proceed => exact course.proceed hfire

end Vigil

end Parking

end Custody
