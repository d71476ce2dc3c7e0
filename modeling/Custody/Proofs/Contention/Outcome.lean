import Custody.Proofs.Coherence.Quiescent
import Custody.Proofs.Contention.Serving
import Custody.Proofs.Contention.Working

/-!
# How a contention ends

With at most two clients, the workers never get stuck before they have gone all their rounds, and in
the end the key holds what they added, in whatever order they took their turns.
-/

namespace Custody

/-- The worker has gone its rounds. -/
structure Worker.Finished (w : Worker) (rounds : Nat) : Prop where
  stage : w.stage = .resting
  left : w.rounds = 0
  gets : w.gets = rounds
  puts : w.puts = rounds
  hits : w.hits = 0

namespace Contention

variable {key : Key} {rounds depth : Nat} {deltas : List Value} {s t : Contention}
  {es : List Event} {done : Nat → Nat} {now : Value} {i j : Nat} {w : Worker} {m : Member}

/-- What actors and workers have done so far is a run of the cluster, and the invariant holds. -/
def Reached (key : Key) (rounds : Nat) (deltas : List Value) (t : Contention) : Prop :=
  ∃ setup labels es, (∀ l ∈ labels, Rules.clientsOnly.Allow l) ∧
    (Cluster.start setup).run labels = some (t.cluster, es) ∧ t.key = key ∧
    Contended rounds deltas t (lastWritten es t.key) (writesBy es)

theorem writesBy_of_quiet {e : Event} (h : ∀ r v, e ≠ .served r v) (es : List Event) (k : Key) :
    lastWritten (es ++ [e]) k = lastWritten es k ∧ writesBy (es ++ [e]) = writesBy es := by
  constructor
  · rw [lastWritten_snoc, publish_of_not_writes]
    rintro ⟨v, hwrite⟩
    cases e with
    | served r w => exact h r w rfl
    | _ => cases hwrite
  · refine writesBy_of_unwrote fun j => ?_
    cases e with
    | served r w => exact absurd rfl (h r w)
    | _ => rfl

theorem contended_fire {mv : Custody.Move} {cluster : Cluster} {e : Event}
    (contended : Contended rounds deltas s (lastWritten es s.key) (writesBy es))
    (coherent : s.cluster.scene.Coherent es) (lossless : s.cluster.scene.Lossless es)
    (attended : Cluster.Attended .clientsOnly s.cluster) (hlen : deltas.length ≤ 2)
    (h : s.cluster.fire mv = some (cluster, e)) :
    Contended rounds deltas { s with cluster } (lastWritten (es ++ [e]) s.key)
      (writesBy (es ++ [e])) := by
  -- only the store's own move concerns the value and the puts accepted
  have hquiet : (∀ r v, e ≠ .served r v) →
      Contended rounds deltas { s with cluster } (lastWritten es s.key) (writesBy es) →
        Contended rounds deltas { s with cluster } (lastWritten (es ++ [e]) s.key)
          (writesBy (es ++ [e])) := by
    intro he hkept
    obtain ⟨hlast, hwrote⟩ := writesBy_of_quiet he es s.key
    rw [hlast, hwrote]
    exact hkept
  obtain ⟨hstay, hserve⟩ := nobody_leaves attended h
  cases mv with
  | serve => exact contended_serve contended coherent lossless attended hlen h
  | begin i =>
    obtain ⟨hkept, job, rfl⟩ := contended_begin contended coherent (attended.kept id).2 h
    exact hquiet (by simp) hkept
  | resume i =>
    obtain ⟨hkept, job, r, rfl⟩ := contended_resume contended h
    exact hquiet (by simp) hkept
  | leave i => exact absurd rfl (hstay i)
  | retire => exact absurd rfl hserve
  | finish id =>
    obtain ⟨hkept, o, rfl⟩ := contended_finish contended h
    exact hquiet (by simp) hkept

theorem work_cluster (h : s.work j = some t) : t.key = s.key ∧ (t.cluster = s.cluster ∨
    ∃ a, s.cluster.call (.client j a .attached) s.key = some t.cluster) := by
  obtain ⟨w, _, ⟨n, cluster, _, _, hcall, rfl⟩ | ⟨id, r, cluster, _, _, hcall, rfl⟩ |
    ⟨id, r, _, _, rfl⟩ | ⟨id, o, _, _, _, rfl⟩⟩ := work_cases h
  · exact ⟨rfl, Or.inr ⟨_, hcall⟩⟩
  · exact ⟨rfl, Or.inr ⟨_, hcall⟩⟩
  · exact ⟨rfl, Or.inl rfl⟩
  · exact ⟨rfl, Or.inl rfl⟩

theorem reached_fire {mv : Move} (hlen : deltas.length ≤ 2) (reached : Reached key rounds deltas s)
    (h : s.fire mv = some t) : Reached key rounds deltas t := by
  obtain ⟨setup, labels, es, allowed, hrun, hkey, contended⟩ := reached
  have attended := Cluster.attended_run allowed (Cluster.attended_start setup) hrun
  obtain ⟨coherent, lossless⟩ := Cluster.lossless_run allowed hrun
  cases mv with
  | actor mv =>
    obtain ⟨cluster, e, hfire, rfl⟩ := fire_actor h
    have hkept := contended_fire contended coherent lossless attended hlen hfire
    refine ⟨setup, labels ++ [.move mv], es ++ [e], ?_, ?_, hkey, hkept⟩
    · exact Rules.allow_snoc allowed trivial
    · exact Cluster.run_snoc hrun (by simp [Cluster.step, hfire])
  | work j =>
    have hkept := contended_work contended attended h
    obtain ⟨hsame, hcluster | ⟨a, hcall⟩⟩ := work_cluster h
    · refine ⟨setup, labels, es, allowed, ?_, hsame.trans hkey, ?_⟩
      · rw [hcluster]
        exact hrun
      · rw [hsame]
        exact hkept
    · refine ⟨setup, labels ++ [.act (.call (.client j a .attached) s.key)], es, ?_, ?_,
        hsame.trans hkey, ?_⟩
      · exact Rules.allow_snoc allowed trivial
      · rw [← List.append_nil es]
        exact Cluster.run_snoc hrun (by simp [Cluster.step, Cluster.perform, hcall])
      · rw [hsame]
        exact hkept

theorem reached_run (hlen : deltas.length ≤ 2) {moves : List Move}
    (h : (start key rounds deltas depth).run moves = some t) : Reached key rounds deltas t := by
  refine run_induction (fun s m t reached hfire => reached_fire hlen reached hfire) ?_ h
  exact ⟨_, [], [], by simp, rfl, rfl, contended_start key rounds deltas depth⟩

/-! ## At rest -/

theorem quiescent_of_atRest (h : s.atRest = true) : s.cluster.Quiescent := by
  intro mv _
  have hnone := fire_of_atRest h (.actor mv)
  simpa [fire] using hnone

/-- A client at work can be called. -/
theorem call_ne_none (attended : Cluster.Attended .clientsOnly s.cluster)
    (hm : s.cluster.members[j]? = some m) (a : Action) :
    s.cluster.call (.client j a .attached) s.key ≠ none := by
  obtain ⟨hhandle, hrun⟩ := (attended.orderly j m hm).2 id
  simp [Cluster.call, hm, hhandle, hrun]

/-- At rest a worker that rests has no rounds to go. -/
theorem rounds_of_resting (attended : Cluster.Attended .clientsOnly s.cluster)
    (hrest : s.atRest = true) (hw : s.workers[j]? = some w) (hm : s.cluster.members[j]? = some m)
    (hstage : w.stage = .resting) : w.rounds = 0 := by
  have hidle := fire_of_atRest hrest (.work j)
  cases hrounds : w.rounds with
  | zero => rfl
  | succ n =>
    obtain ⟨cluster, hcall⟩ := Option.ne_none_iff_exists'.mp (call_ne_none attended hm .get)
    simp [fire, work, callFor, hw, hstage, hrounds, hcall] at hidle

/-- At rest no worker has a call to take note of. -/
theorem not_noted_of_atRest {c : Nat} {a : Action} {r : ClientReply}
    (attended : Cluster.Attended .clientsOnly s.cluster) (hrest : s.atRest = true)
    (hw : s.workers[j]? = some w) (hm : s.cluster.members[j]? = some m) :
    ¬ Errand s.cluster.calls s.key now j w m c a (.noted r) := by
  intro errand
  have hidle := fire_of_atRest hrest (.work j)
  have hended : s.cluster.ended? c = some (.answered (.client r)) := by
    simp [Cluster.ended?, errand.call, Leg.status]
  cases a with
  | get =>
    have hstage : w.stage = .getting c := errand.stage
    obtain ⟨cluster, hcall⟩ :=
      Option.ne_none_iff_exists'.mp (call_ne_none attended hm (.put (r.value + w.delta)))
    simp [fire, work, callFor, hw, hstage, hended, hcall] at hidle
  | put u =>
    have hstage : w.stage = .putting c := errand.stage
    simp [fire, work, hw, hstage, hended] at hidle
  | unsupported name => exact errand.stage

/-- At rest a worker is done, or its client is parked behind the key. -/
theorem done_or_parked (contended : Contended rounds deltas s now done)
    (lossless : s.cluster.scene.Lossless es)
    (attended : Cluster.Attended .clientsOnly s.cluster) (hrest : s.atRest = true)
    (hw : s.workers[j]? = some w) (hm : s.cluster.members[j]? = some m) :
    (w.stage = .resting ∧ w.rounds = 0) ∨ (Hand.Awaits ⟨m.cache, m.work⟩ .get s.key ∧
      s.cluster.keeper.store.waiter s.key = some (.client j)) := by
  have hquiet := quiescent_of_atRest hrest
  have hrun := ((attended.orderly j m hm).2 id).2
  have hbusy : w.stage = .resting ∨ ∃ c, w.Awaits c := by
    cases hstage : w.stage with
    | resting => exact Or.inl rfl
    | getting c => exact Or.inr ⟨c, Or.inl hstage⟩
    | putting c => exact Or.inr ⟨c, Or.inr hstage⟩
  rcases hbusy with hstage | ⟨c, hwaits⟩
  · exact Or.inl ⟨hstage, rounds_of_resting attended hrest hw hm hstage⟩
  · obtain ⟨a, leg, errand, _⟩ := (contended.standing j w m hw hm).of_awaits hwaits
    cases leg with
    | queued =>
      have hentries := Cluster.entries_of_begin hm hrun errand.work (hquiet (.begin j) (by simp))
      rw [errand.entries] at hentries
      cases hentries
    | asked slot =>
      have hhand := Cluster.hand_of_member hm hrun
      obtain hidle | ⟨k, ⟨c', hwork⟩, hwaiter⟩ :=
        Cluster.work_of_quiescent lossless (attended.kept id).2 hquiet hhand
      · cases errand.work.symm.trans hidle
      · cases errand.work.symm.trans hwork
        exact Or.inr ⟨⟨c, errand.work⟩, hwaiter⟩
    | told r =>
      have hfinish := fire_of_atRest hrest (.actor (.finish c))
      simp [fire, Cluster.fire, Cluster.finish, errand.call, Cluster.outcome?,
        Leg.status] at hfinish
    | noted r => exact absurd errand (not_noted_of_atRest attended hrest hw hm)

section

variable (contended : Contended rounds deltas s now done)
  (coherent : s.cluster.scene.Coherent es) (lossless : s.cluster.scene.Lossless es)
  (attended : Cluster.Attended .clientsOnly s.cluster) (hrest : s.atRest = true)

include contended coherent lossless attended hrest

/-- At rest nobody has the key. -/
theorem not_holds_of_atRest {h : Hand} (hi : s.cluster.hand i = some h) : ¬ h.Holds s.key := by
  obtain ⟨m, hm, hrun, rfl⟩ := Cluster.hand_eq_some_iff.mp hi
  obtain ⟨w, hw⟩ := contended.worker_of_member hm
  rcases done_or_parked contended lossless attended hrest hw hm with ⟨hstage, _⟩ | ⟨hawaits, _⟩
  · obtain ⟨_, hwork, hmiss, _⟩ := (contended.standing i w m hw hm).of_resting hstage
    rw [Hand.holds_of_idle hwork]
    rintro ⟨v, hcache⟩
    exact absurd (hmiss.symm.trans hcache) (by simp)
  · exact Hand.not_holds_of_awaits (coherent.sound i _ hi) hawaits

theorem not_owned_of_atRest (k : Key) : s.cluster.keeper.store.isOwned k = false := by
  rw [← Bool.not_eq_true]
  intro howned
  have hkey : k = s.key := by
    by_contra hother
    have hvalue := coherent.valued k howned
    rw [show s.cluster.scene.store.value k = none from contended.only k hother] at hvalue
    cases hvalue
  subst hkey
  obtain ⟨x, hx⟩ := Option.isSome_iff_exists.mp ((coherent.owned s.key).symm.trans howned)
  obtain ⟨i, h, _, hi, hholds⟩ := lossless.kept s.key x hx
  exact not_holds_of_atRest contended coherent lossless attended hrest hi hholds

theorem not_waiting_of_atRest (k : Key) : s.cluster.keeper.store.waiter k = none := by
  have hfree := not_owned_of_atRest contended coherent lossless attended hrest k
  rw [Option.eq_none_iff_forall_not_mem]
  intro x hx
  have howned := (lossless.waiting k x hx).1
  exact absurd howned (ne_true_of_eq_false hfree)

/-- At rest a worker has gone all its rounds, and all its puts have been accepted. -/
theorem finished_of_atRest (hw : s.workers[j]? = some w) :
    w.Finished rounds ∧ done j = rounds := by
  obtain ⟨m, hm⟩ := contended.member_of_worker hw
  rcases done_or_parked contended lossless attended hrest hw hm with ⟨hstage, hleft⟩ | ⟨_, hwaiter⟩
  · obtain ⟨_, _, _, hdone⟩ := (contended.standing j w m hw hm).of_resting hstage
    obtain ⟨hhits, hgets, hputs⟩ := (contended.counts j w hw).of_resting hstage
    rw [hleft, Nat.zero_add] at hputs
    exact ⟨⟨hstage, hleft, hgets.trans hputs, hputs, hhits⟩, hdone.trans hputs⟩
  · have hvacant := not_waiting_of_atRest contended coherent lossless attended hrest s.key
    rw [hwaiter] at hvacant
    cases hvacant

theorem fine_of_atRest {c : Call} (hc : c ∈ s.cluster.calls) : c.Fine := by
  obtain ⟨id, hid⟩ := List.mem_iff_getElem?.mp hc
  rcases contended.calls id c hid with hfine | ⟨j, w, hw, hwaits⟩
  · exact hfine
  · have hstage := (finished_of_atRest contended coherent lossless attended hrest hw).1.stage
    exact absurd hwaits (Worker.not_awaits hstage)

end

/-- What the store holds for `k` when all is done. -/
def outcome (key : Key) (rounds : Nat) (deltas : List Value) (k : Key) : Option Value :=
  if k = key ∧ rounds ≠ 0 ∧ deltas ≠ [] then
    some (Int64.ofInt (rounds * (deltas.map Int64.toInt).sum))
  else none

/-- At rest the key holds what all workers have added. -/
theorem value_of_atRest (contended : Contended rounds deltas s (lastWritten es s.key) done)
    (coherent : s.cluster.scene.Coherent es) (lossless : s.cluster.scene.Lossless es)
    (attended : Cluster.Attended .clientsOnly s.cluster) (hrest : s.atRest = true) (k : Key) :
    s.cluster.keeper.store.value k = outcome s.key rounds deltas k := by
  have hdone : ∀ j < deltas.length, done j = rounds := by
    intro j hj
    rw [← contended.length_workers] at hj
    exact (finished_of_atRest contended coherent lossless attended hrest
      (List.getElem?_eq_getElem hj)).2
  by_cases hk : k = s.key
  · subst hk
    by_cases hbegun : rounds ≠ 0 ∧ deltas ≠ []
    · obtain ⟨hrounds, hdeltas⟩ := hbegun
      have hfirst : 0 < done 0 := by
        rw [hdone 0 (List.length_pos_iff.mpr hdeltas)]
        exact Nat.pos_of_ne_zero hrounds
      obtain ⟨v, hv⟩ := Option.isSome_iff_exists.mp (contended.written 0 hfirst)
      have hlast : v = lastWritten es s.key := by
        rw [← coherent.value s.key]
        exact (congrArg (·.getD 0) hv).symm
      have htally : tally done 0 deltas = rounds * (deltas.map Int64.toInt).sum := by
        refine tally_of_even fun j _ hj => hdone j ?_
        rwa [Nat.zero_add] at hj
      rw [hv, hlast, contended.sum, htally, outcome, if_pos ⟨rfl, hrounds, hdeltas⟩]
    · rw [outcome, if_neg fun h => hbegun h.2, ← Option.not_isSome_iff_eq_none]
      intro hvalue
      obtain ⟨hrounds, hdeltas⟩ := contended.begun hvalue
      exact hbegun ⟨Nat.ne_of_gt hrounds, hdeltas⟩
  · rw [outcome, if_neg fun h => hk h.1]
    exact contended.only k hk

/-- All workers are done, their calls came off, and the store is left with what they added. -/
structure Ended (key : Key) (rounds : Nat) (deltas : List Value) (t : Contention) : Prop where
  team : t.workers.map (·.delta) = deltas
  finished : ∀ w ∈ t.workers, w.Finished rounds
  fine : ∀ c ∈ t.cluster.calls, c.Fine
  free : ∀ k, t.cluster.keeper.store.isOwned k = false
  vacant : ∀ k, t.cluster.keeper.store.waiter k = none
  value : ∀ k, t.cluster.keeper.store.value k = outcome key rounds deltas k

theorem ended_of_atRest (reached : Reached key rounds deltas t) (hrest : t.atRest = true) :
    t.Ended key rounds deltas := by
  obtain ⟨setup, labels, es, allowed, hrun, rfl, contended⟩ := reached
  have attended := Cluster.attended_run allowed (Cluster.attended_start setup) hrun
  obtain ⟨coherent, lossless⟩ := Cluster.lossless_run allowed hrun
  refine ⟨contended.team, ?_, ?_, ?_, ?_, ?_⟩
  · intro w hw
    obtain ⟨j, hj⟩ := List.mem_iff_getElem?.mp hw
    exact (finished_of_atRest contended coherent lossless attended hrest hj).1
  · exact fun c hc => fine_of_atRest contended coherent lossless attended hrest hc
  · exact not_owned_of_atRest contended coherent lossless attended hrest
  · exact not_waiting_of_atRest contended coherent lossless attended hrest
  · exact value_of_atRest contended coherent lossless attended hrest

/-- However the workers take their turns, settling takes them to the end. -/
theorem ended_settle (hlen : deltas.length ≤ 2) :
    (start key rounds deltas depth).settle.Ended key rounds deltas := by
  obtain ⟨moves, hrun, hrest⟩ := run_settleIn (s := start key rounds deltas depth) (Nat.le_refl _)
  exact ended_of_atRest (reached_run hlen hrun) hrest

/-- Until its worker has its reply, a call is open. -/
theorem pending_or_fine (contended : Contended rounds deltas s now done) {c : Call}
    (hc : c ∈ s.cluster.calls) : c.isPending = true ∨ c.Fine := by
  obtain ⟨id, hid⟩ := List.mem_iff_getElem?.mp hc
  rcases contended.calls id c hid with hfine | ⟨j, w, hw, hwaits⟩
  · exact Or.inr hfine
  · obtain ⟨m, hm⟩ := contended.member_of_worker hw
    obtain ⟨a, leg, errand, _⟩ := (contended.standing j w m hw hm).of_awaits hwaits
    cases leg with
    | noted r => exact Or.inr (fine_of_errand errand hid)
    | queued | asked | told =>
      obtain rfl := Option.some.inj (hid.symm.trans errand.call)
      exact Or.inl rfl

/-- Every run comes to an end, no call on the way fails or hits, and nothing is stuck before all
workers are done. -/
theorem contention_ends_right {moves : List Move} (hlen : deltas.length ≤ 2)
    (h : (start key rounds deltas depth).run moves = some t) :
    moves.length ≤ (start key rounds deltas depth).load ∧
      (∀ c ∈ t.cluster.calls, c.isPending = true ∨ c.Fine) ∧
      ((∀ mv, t.fire mv = none) → t.Ended key rounds deltas) := by
  have reached := reached_run hlen h
  refine ⟨?_, ?_, ?_⟩
  · have hload := length_add_load_le h
    omega
  · obtain ⟨_, _, _, _, _, _, contended⟩ := reached
    exact fun c hc => pending_or_fine contended hc
  · exact fun hstuck => ended_of_atRest reached (atRest_iff.mpr hstuck)

/-- Client 0 asks for the key while client 1 has it, and gets it with client 1's put. -/
def handoverMoves : List Move :=
  [.work 1, .work 0, .actor (.begin 1), .actor (.begin 0), .actor .serve, .actor (.resume 1),
    .actor (.finish 0), .work 1, .actor (.begin 1), .actor .serve, .actor .serve,
    .actor (.resume 1), .actor (.finish 2), .work 1, .actor (.resume 0), .actor (.finish 1),
    .work 0, .actor (.begin 0), .actor .serve, .actor (.resume 0), .actor (.finish 3), .work 0]

theorem contention_ends_right_after_handover :
    ∃ t, (start "k" 1 [Int64.maxValue, 1] 1).run handoverMoves = some t ∧
      handoverMoves.length ≤ 25 ∧ (∀ c ∈ t.cluster.calls, c.isPending = true ∨ c.Fine) ∧
      t.Ended "k" 1 [Int64.maxValue, 1] ∧
      t.cluster.keeper.store.value "k" = some Int64.minValue := by
  obtain ⟨t, h, hrest⟩ : ∃ t, (start "k" 1 [Int64.maxValue, 1] 1).run handoverMoves = some t ∧
      t.atRest = true := ⟨_, rfl, rfl⟩
  obtain ⟨hlength, hcalls, hended⟩ := contention_ends_right (by decide) h
  have ended := hended (atRest_iff.mp hrest)
  refine ⟨t, h, hlength, hcalls, ended, ?_⟩
  rw [ended.value "k"]
  decide

end Contention

end Custody
