import Custody.Proofs.Parking.Standing
import Custody.Proofs.Store.Canonical

/-!
# A wait ends, and only observes

If each of its calls ends some day, the clock goes on and it moves when it can, a wait ends: it
comes to its next move again and again, and has at most 2001 looks. All it does to the cluster is to
ask for snapshots, and these leave no trace in what the store decides.
-/

namespace Custody

namespace Parking

namespace Vigil

/-- An endless course of things around a wait. Each of its calls is answered or refused, the clock
goes on, and the wait moves if it can and could from then on. -/
structure Fair (k : Key) (start : Nat) (vs : Nat → Vigil) (ms : Nat → Move) : Prop where
  fires : ∀ n, (vs n).fire k start (ms n) = some (vs (n + 1))
  answered : ∀ n c, (vs n).stance = .awaiting c →
    ∃ m, n ≤ m ∧ ((vs m).cluster.ended? c).isSome = true
  clock : ∀ n time, ∃ m, n ≤ m ∧ time ≤ (vs m).time
  diligent : ∀ n, (∀ m, n ≤ m → ((vs m).proceed k start).isSome = true) →
    ∃ m, n ≤ m ∧ ms m = .proceed

variable {k : Key} {start : Nat} {s : Cluster} {v u w : Vigil} {moves : List Move}
  {vs : Nat → Vigil} {ms : Nat → Move} {n m c : Nat}

theorem Fair.run (fair : Fair k start vs ms) (n : Nat) :
    (vs 0).run k start ((List.range n).map ms) = some (vs n) := by
  induction n with
  | zero => rfl
  | succ n ih =>
    rw [List.range_succ, List.map_append, List.map_singleton, run_snoc, ih]
    exact fair.fires n

/-! ## Every move of the wait brings it nearer to its end -/

/-- The moves that are left, if no look decides before the time is up. -/
def left (v : Vigil) : Nat :=
  match v.stance with
  | .asking => 3 * (patience + 1 - v.looks.length)
  | .awaiting _ => 3 * (patience + 1 - v.looks.length) - 1
  | .asleep _ => 3 * (patience + 1 - v.looks.length) + 1
  | .done _ => 0

theorem left_proceed {P : Nat → Snapshot → Prop} (h : v.Standing k start P)
    (hproceed : v.proceed k start = some w) : w.left < v.left := by
  unfold Standing at h
  cases proceed_cases hproceed with
  | asked cluster hstance hcall =>
    rw [hstance] at h
    have hfew := h.1.few
    simp only [left, hstance]
    omega
  | slept c sight hstance hsight hopen =>
    rw [hstance] at h
    have hfew := h.1.few
    simp only [left, hstance, List.length_append, List.length_singleton]
    have hlate := h.1.late
    have hearly : v.time < start + patience := hopen.2
    omega
  | ended c sight r hstance hsight hjudge =>
    rw [hstance] at h
    have hfew := h.1.few
    simp only [left, hstance]
    omega
  | woke wake hstance htime =>
    simp only [left, hstance]
    omega

theorem left_fire {P : Nat → Snapshot → Prop} (h : v.Standing k start P) {mv : Move}
    (hfire : v.fire k start mv = some w) : w.left ≤ v.left := by
  cases mv with
  | other l =>
    obtain ⟨_, cluster, now, _, rfl⟩ := other_cases hfire
    exact Nat.le_refl _
  | tick d =>
    obtain rfl := Option.some.inj hfire
    exact Nat.le_refl _
  | proceed => exact Nat.le_of_lt (left_proceed h hfire)

/-- Others do not move the wait. -/
theorem stance_fire {mv : Move} (hmv : mv ≠ .proceed) (hfire : v.fire k start mv = some w) :
    w.stance = v.stance := by
  cases mv with
  | other l =>
    obtain ⟨_, cluster, now, _, rfl⟩ := other_cases hfire
    rfl
  | tick d =>
    obtain rfl := Option.some.inj hfire
    rfl
  | proceed => exact absurd rfl hmv

/-! ## The wait comes to its next move -/

/-- What the wait waits for has come. -/
def Ready (v : Vigil) : Prop :=
  match v.stance with
  | .asking => True
  | .awaiting c => (v.cluster.ended? c).isSome = true
  | .asleep wake => wake ≤ v.time
  | .done _ => False

theorem Ready.able {P : Nat → Snapshot → Prop} (hready : v.Ready) (h : v.Standing k start P) :
    (v.proceed k start).isSome = true := by
  unfold Standing at h
  unfold Ready at hready
  rw [Vigil.proceed]
  cases hstance : v.stance with
  | asking =>
    rw [hstance] at h
    obtain ⟨cluster, hcall⟩ := Cluster.exists_call_snapshot k h.1.handle
    simp [hcall]
  | awaiting c =>
    rw [hstance] at h hready
    obtain ⟨sight, hsight⟩ := Option.isSome_iff_exists.mp (sighted_of_ended h.2.2.1 hready)
    simp [hsight]
  | asleep wake =>
    rw [hstance] at hready
    simp [hready]
  | done r => simp [hstance] at hready

/-- And it stays until the wait moves. -/
theorem Ready.fire {mv : Move} (hready : v.Ready) (hmv : mv ≠ .proceed)
    (hfire : v.fire k start mv = some w) : w.Ready := by
  unfold Ready at hready ⊢
  rw [stance_fire hmv hfire]
  cases mv with
  | other l =>
    obtain ⟨_, cluster, now, hstep, rfl⟩ := other_cases hfire
    cases hstance : v.stance with
    | awaiting c =>
      rw [hstance] at hready
      exact Cluster.ended?_step hready hstep
    | _ =>
      rw [hstance] at hready
      exact hready
  | tick d =>
    obtain rfl := Option.some.inj hfire
    cases hstance : v.stance with
    | asleep wake =>
      rw [hstance] at hready
      exact Nat.le_trans hready (Nat.le_add_right _ d)
    | _ =>
      rw [hstance] at hready
      exact hready
  | proceed => exact absurd rfl hmv

section

variable (fair : Fair k start vs ms)
  (course : ∀ n, ∃ moves, Course k start s moves (vs n))

include fair

theorem Fair.stance_eq (hstill : ∀ m, n ≤ m → ms m ≠ .proceed) (hnm : n ≤ m) :
    (vs m).stance = (vs n).stance := by
  induction m, hnm using Nat.le_induction with
  | base => rfl
  | succ m hm ih => rw [stance_fire (hstill m hm) (fair.fires m), ih]

theorem Fair.ready (hstill : ∀ m, n ≤ m → ms m ≠ .proceed)
    (hopen : ∀ r, (vs n).stance ≠ .done r) : ∃ m, n ≤ m ∧ (vs m).Ready := by
  cases hstance : (vs n).stance with
  | asking => exact ⟨n, Nat.le_refl n, by rw [Ready, hstance]; trivial⟩
  | awaiting c =>
    obtain ⟨m, hm, hended⟩ := fair.answered n c hstance
    exact ⟨m, hm, by rwa [Ready, fair.stance_eq hstill hm, hstance]⟩
  | asleep wake =>
    obtain ⟨m, hm, htime⟩ := fair.clock n wake
    exact ⟨m, hm, by rwa [Ready, fair.stance_eq hstill hm, hstance]⟩
  | done r => exact absurd hstance (hopen r)

theorem Fair.ready_from (hstill : ∀ m, n ≤ m → ms m ≠ .proceed) (hready : (vs n).Ready)
    (hnm : n ≤ m) : (vs m).Ready := by
  induction m, hnm using Nat.le_induction with
  | base => exact hready
  | succ m hm ih => exact ih.fire (hstill m hm) (fair.fires m)

include course

/-- If it is not over, the wait moves once more. -/
theorem Fair.moves_on (hopen : ∀ r, (vs n).stance ≠ .done r) : ∃ m, n ≤ m ∧ ms m = .proceed := by
  by_contra hnever
  have hstill : ∀ m, n ≤ m → ms m ≠ .proceed := fun m hm hproceed => hnever ⟨m, hm, hproceed⟩
  obtain ⟨m, hm, hready⟩ := fair.ready hstill hopen
  have hlater : ∀ j, m ≤ j → ms j ≠ .proceed := fun j hj => hstill j (Nat.le_trans hm hj)
  obtain ⟨j, hj, hproceed⟩ := fair.diligent m fun j hj => by
    obtain ⟨moves, hcourse⟩ := course j
    exact (fair.ready_from hlater hready hj).able hcourse.standing
  exact hlater j hj hproceed

theorem Fair.left_le (hnm : n ≤ m) : (vs m).left ≤ (vs n).left := by
  induction m, hnm using Nat.le_induction with
  | base => exact Nat.le_refl _
  | succ m _ ih =>
    obtain ⟨moves, hcourse⟩ := course m
    exact Nat.le_trans (left_fire hcourse.standing (fair.fires m)) ih

theorem Fair.ends : ∃ n r, (vs n).stance = .done r := by
  suffices hends : ∀ left n, (vs n).left = left → ∃ n r, (vs n).stance = .done r from
    hends _ 0 rfl
  intro left
  induction left using Nat.strong_induction_on with
  | h left ih =>
    rintro n rfl
    by_contra hopen
    obtain ⟨m, hm, hproceed⟩ := fair.moves_on course fun r hr => hopen ⟨n, r, hr⟩
    obtain ⟨moves, hcourse⟩ := course m
    have hless := left_proceed hcourse.standing (hproceed ▸ fair.fires m)
    have hbefore := fair.left_le course hm
    exact hopen (ih (vs (m + 1)).left (by omega) (m + 1) rfl)

end

/-! ## A course of things that is fair -/

/-- What has become of a wait after `n` moves, when one millisecond after the other goes by once
they are all made. -/
def ticking (k : Key) (start : Nat) (v : Vigil) (moves : List Move) : Nat → Vigil
  | 0 => v
  | n + 1 =>
    let u := ticking k start v moves n
    (u.fire k start (moves.getD n (.tick 1))).getD u

theorem ticking_run (v : Vigil) (early late : List Move) (h : v.run k start early = some u) :
    ticking k start v (early ++ late) early.length = u := by
  induction early using List.reverseRecOn generalizing u late with
  | nil => exact Option.some.inj h
  | append_singleton past m ih =>
    rw [run_snoc] at h
    obtain ⟨w, hpast, hfire⟩ := Option.bind_eq_some_iff.mp h
    rw [List.length_append, List.length_singleton, ticking, List.append_assoc,
      ih ([m] ++ late) hpast]
    simp [hfire]

theorem ticking_add (h : v.run k start moves = some u) (n : Nat) :
    ticking k start v moves (moves.length + n) = { u with time := u.time + n } := by
  induction n with
  | zero =>
    have hrun := ticking_run v moves [] h
    rwa [List.append_nil] at hrun
  | succ n ih =>
    rw [← Nat.add_assoc, ticking, ih]
    simp [fire, Nat.add_assoc]

/-- Once a wait is over, it is enough that the clock goes on. -/
theorem fair_ticking {r : Result} (h : v.run k start moves = some u) (hdone : u.stance = .done r)
    (hanswered : ∀ n c, n < moves.length → (ticking k start v moves n).stance = .awaiting c →
      ∃ m, n ≤ m ∧ ((ticking k start v moves m).cluster.ended? c).isSome = true) :
    Fair k start (ticking k start v moves) fun n => moves.getD n (.tick 1) := by
  have hafter : ∀ n, moves.length ≤ n →
      ticking k start v moves n = { u with time := u.time + (n - moves.length) } := by
    intro n hn
    rw [← ticking_add h, Nat.add_sub_cancel' hn]
  have hover : ∀ n, moves.length ≤ n → (ticking k start v moves n).stance = .done r := by
    intro n hn
    rw [hafter n hn]
    exact hdone
  refine ⟨fun n => ?_, fun n c hstance => ?_, fun n time => ?_, fun n hable => ?_⟩
  · rcases Nat.lt_or_ge n moves.length with hn | hn
    · have hsplit : moves.take n ++ moves[n] :: moves.drop (n + 1) = moves := by simp
      rw [← hsplit, run_append] at h
      obtain ⟨w, hpast, hrest⟩ := Option.bind_eq_some_iff.mp h
      obtain ⟨x, hfire, _⟩ := Option.bind_eq_some_iff.mp hrest
      have hnow := ticking_run v (moves.take n) (moves[n] :: moves.drop (n + 1)) hpast
      rw [hsplit, List.length_take_of_le (Nat.le_of_lt hn)] at hnow
      rw [ticking, hnow]
      simp [hn, hfire]
    · rw [ticking, hafter n hn]
      simp [hn, fire]
  · rcases Nat.lt_or_ge n moves.length with hn | hn
    · exact hanswered n c hn hstance
    · cases (hover n hn).symm.trans hstance
  · refine ⟨moves.length + n + time, by omega, ?_⟩
    rw [hafter _ (by omega)]
    simp only
    omega
  · have hstuck := hable (moves.length + n) (by omega)
    rw [proceed, hover _ (by omega)] at hstuck
    cases hstuck

/-! ## The outcome -/

/-- A snapshot shows the keys that somebody waits for, whether or not they can still be reached. -/
theorem mem_waiting (store : Store Requester) (k : Key) :
    k ∈ store.snapshot.waiting ↔ ∃ x, store.waiter k = some x := by
  rw [store.of_snapshot.waiting, Store.hasWaiter_eq, Option.isSome_iff_exists]

theorem Settled.concludes {r : Result} {earlier : List Look} {last : Look}
    (settled : v.Settled k start r earlier last)
    (hseen : ∀ (n : Nat) look, v.looks[n]? = some look → ∃ P, look.sight.Of P) :
    Concludes k start v.looks r := by
  rw [settled.looks]
  refine concludes_of_last settled.opened settled.judged fun hfault => ?_
  obtain ⟨P, hof⟩ := hseen earlier.length last (by simp [settled.looks])
  rw [hfault] at hof
  rcases hof with hf | hf
  · cases hf
  · cases hf

/-- There are at most 2001 requests, and the result follows from the looks, each of which shows the
store as it was at some moment, or is an error of a snapshot request. All that the wait does to the
cluster is to make the requests; when the actors come to rest, they have been answered or refused.
If that happens, the clock goes on and the wait moves when it can, then it ends. The other parts say
that the requests, answered or abandoned, are nothing to the store: it becomes and says what comes
of its arrivals, looks among them change nothing, and nobody but the one who asks hears of a
look. -/
theorem wait_ends_and_only_observes {setup : Setup} {labels : List Label} {es : List Event}
    (h : (Cluster.start setup).run labels = some (s, es)) (hhandle : s.keeper.handle = true)
    (k : Key) (start : Nat) :
    (∀ moves v, (begin start s).run k start moves = some v →
      v.asked ≤ 2001 ∧
      (∀ r, v.stance = .done r → v.asked = v.looks.length ∧ Concludes k start v.looks r) ∧
      (∀ (n : Nat) look f, v.looks[n]? = some look → look.sight = .failed f →
        f = .snapshotNotSent ∨ f = .snapshotUnanswered) ∧
      (∀ (n : Nat) look shot, v.looks[n]? = some look → look.sight = .shown shot →
        ∃ early late u c, moves = early ++ late ∧ (begin start s).run k start early = some u ∧
          u.stance = .awaiting c ∧ u.looks.length = n ∧
          shot = u.cluster.keeper.store.snapshot ∧
          (k ∈ shot.waiting ↔ ∃ x, u.cluster.keeper.store.waiter k = some x)) ∧
      (∀ c, v.stance = .awaiting c → v.cluster.atRest = true →
        (v.cluster.ended? c).isSome = true) ∧
      Watched k s moves v) ∧
    (∀ vs ms, vs 0 = begin start s → Fair k start vs ms → ∃ n r, (vs n).stance = .done r) ∧
    (∀ labels t es, (Cluster.start setup).run labels = some (t, es) →
      es.filter Event.byStore = (Store.process {} ((Cluster.start setup).arrivals labels)).2 ∧
        (t.keeper.running = true →
          t.keeper.store = (Store.process {} ((Cluster.start setup).arrivals labels)).1)) ∧
    (∀ (store : Store Requester) as bs, Inserted Arrival.IsLook as bs →
      store.decisions bs = store.decisions as ∧ ∀ early late, bs = early ++ late →
        ∃ early' late', as = early' ++ late' ∧ Inserted Arrival.IsLook early' early ∧
          Inserted Arrival.IsLook late' late ∧
          (store.process early).1 = (store.process early').1) ∧
    ∀ (t u : Cluster) e c rest, t.keeper.inbox.entries = .snapshot c :: rest →
      t.serve = some (u, e) →
      u.keeper.store = t.keeper.store ∧ u.requests = t.requests ∧ u.members = t.members ∧
        (∀ x, u.isPresent x = t.isPresent x) ∧ (∀ d, d ≠ c → u.calls[d]? = t.calls[d]?) ∧
        (t.isPresent (.caller c) = false → u.calls = t.calls) := by
  have course : ∀ {moves v}, (begin start s).run k start moves = some v →
      Course k start s moves v := fun hrun => course_run h hhandle hrun
  refine ⟨fun moves v hrun => ?_, fun vs ms hbegin fair => ?_, fun labels t es hrun => ?_,
    fun store as bs hinserted => ?_, fun t u e c rest hentries hserve => ?_⟩
  · have hcourse := course hrun
    refine ⟨hcourse.standing.asked_le, fun r hstance => ?_, fun n look f hlook hfailed => ?_,
      fun n look shot hlook hshown => ?_, fun c hstance hrest => ?_, hcourse.watched⟩
    · have standing := hcourse.standing
      rw [Standing, hstance] at standing
      obtain ⟨⟨earlier, last, settled⟩, hasked⟩ := standing
      exact ⟨hasked, settled.concludes fun n look hlook => ⟨_, hcourse.seen n look hlook⟩⟩
    · have hof := hcourse.seen n look hlook
      rwa [hfailed] at hof
    · have hof := hcourse.seen n look hlook
      rw [hshown] at hof
      obtain ⟨early, late, u, c, hmoves, hearly, hstance, hlen, rfl⟩ := hof
      exact ⟨early, late, u, c, hmoves, hearly, hstance, hlen, rfl, mem_waiting _ k⟩
    · have standing := hcourse.standing
      rw [Standing, hstance] at standing
      exact standing.2.2.1.ended_of_atRest hcourse.onRecord standing.2.2.2 hrest
  · refine fair.ends fun n => ⟨(List.range n).map ms, course ?_⟩
    rw [← hbegin]
    exact fair.run n
  · exact Cluster.process_run hrun
  · exact Store.process_inserted hinserted store
  · exact Cluster.serve_look hentries hserve

/-- Two callers read the same key; the second one has to wait and goes away. -/
def vanishedLabels : List Label :=
  [.act (.call (.store .read) "k"), .move .serve, .move (.finish 0),
    .act (.call (.store .read) "k"), .move .serve, .act (.cancel 1)]

/-- The look comes three seconds after the time is up. -/
def lateMoves : List Move :=
  [.proceed, .other (.move .serve), .other (.move (.finish 2)), .tick 5000, .proceed]

/-- A look that comes much too late, at a reader that has gone away. -/
theorem wait_of_late_look : ∃ s es v, (Cluster.start ⟨[], 1⟩).run vanishedLabels = some (s, es) ∧
    s.isPresent (.caller 1) = false ∧ (begin 0 s).run "k" 0 lateMoves = some v ∧
    v.time = 5000 ∧ v.asked ≤ 2001 ∧ v.stance = .done .parked ∧
    Concludes "k" 0 v.looks .parked ∧
    Fair "k" 0 (ticking "k" 0 (begin 0 s) lateMoves) (fun n => lateMoves.getD n (.tick 1)) ∧
    ∃ n r, (ticking "k" 0 (begin 0 s) lateMoves n).stance = .done r := by
  obtain ⟨s, es, v, h, hhandle, hgone, hrun, htime, hdone, hended, hstances⟩ : ∃ s es v,
      (Cluster.start ⟨[], 1⟩).run vanishedLabels = some (s, es) ∧ s.keeper.handle = true ∧
        s.isPresent (.caller 1) = false ∧ (begin 0 s).run "k" 0 lateMoves = some v ∧
        v.time = 5000 ∧ v.stance = .done .parked ∧ (v.cluster.ended? 2).isSome = true ∧
        (List.range 5).map (fun n => (ticking "k" 0 (begin 0 s) lateMoves n).stance) =
          [.asking, .awaiting 2, .awaiting 2, .awaiting 2, .awaiting 2] :=
    ⟨_, _, _, rfl, rfl, rfl, rfl, rfl, rfl, rfl, rfl⟩
  have fair : Fair "k" 0 (ticking "k" 0 (begin 0 s) lateMoves)
      fun n => lateMoves.getD n (.tick 1) := by
    refine fair_ticking hrun hdone fun n c hn hstance => ⟨5, Nat.le_of_lt hn, ?_⟩
    have hc : c = 2 := by
      simp only [List.range, List.range.loop, List.map_cons, List.map_nil, List.cons.injEq]
        at hstances
      obtain ⟨h0, h1, h2, h3, h4, _⟩ := hstances
      change n < 5 at hn
      interval_cases n
      · cases h0.symm.trans hstance
      · exact (Stance.awaiting.inj (h1.symm.trans hstance)).symm
      · exact (Stance.awaiting.inj (h2.symm.trans hstance)).symm
      · exact (Stance.awaiting.inj (h3.symm.trans hstance)).symm
      · exact (Stance.awaiting.inj (h4.symm.trans hstance)).symm
    rw [hc, show ticking "k" 0 (begin 0 s) lateMoves 5 = v from ticking_add hrun 0]
    exact hended
  obtain ⟨hruns, hends, _⟩ := wait_ends_and_only_observes h hhandle "k" 0
  obtain ⟨hasked, hresult, _⟩ := hruns lateMoves v hrun
  exact ⟨s, es, v, h, hgone, hrun, htime, hasked, hdone, (hresult _ hdone).2, fair,
    hends _ _ rfl fair⟩

end Vigil

end Parking

end Custody
