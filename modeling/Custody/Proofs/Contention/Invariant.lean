import Custody.Proofs.Contention.Standing
import Custody.Proofs.Scene.Simulation

/-!
# What a contention keeps

Every worker stands somewhere, its counters agree with that, and what has been added to the key in
all is what the workers' accepted puts come to.
-/

namespace Custody

/-- The counters of a worker that is to go `rounds` rounds. -/
def Worker.Counts (w : Worker) (rounds : Nat) : Prop :=
  w.hits = 0 ∧ match w.stage with
    | .resting => w.gets = w.puts ∧ w.rounds + w.puts = rounds
    | .getting _ => w.gets = w.puts ∧ w.rounds + w.puts + 1 = rounds
    | .putting _ => w.gets = w.puts + 1 ∧ w.rounds + w.puts + 1 = rounds

namespace Worker.Counts

variable {w : Worker} {rounds c : Nat} (counts : w.Counts rounds)

include counts

theorem of_resting (hstage : w.stage = .resting) :
    w.hits = 0 ∧ w.gets = w.puts ∧ w.rounds + w.puts = rounds := by
  obtain ⟨hhits, hcounts⟩ := counts
  rw [hstage] at hcounts
  exact ⟨hhits, hcounts⟩

theorem of_getting (hstage : w.stage = .getting c) :
    w.hits = 0 ∧ w.gets = w.puts ∧ w.rounds + w.puts + 1 = rounds := by
  obtain ⟨hhits, hcounts⟩ := counts
  rw [hstage] at hcounts
  exact ⟨hhits, hcounts⟩

theorem of_putting (hstage : w.stage = .putting c) :
    w.hits = 0 ∧ w.gets = w.puts + 1 ∧ w.rounds + w.puts + 1 = rounds := by
  obtain ⟨hhits, hcounts⟩ := counts
  rw [hstage] at hcounts
  exact ⟨hhits, hcounts⟩

end Worker.Counts

/-- A client's call that came off, and was no hit if it was a get. -/
def Call.Fine (c : Call) : Prop :=
  ∃ j a r, c.target = .client j a .attached ∧ c.status = .ended (.answered (.client r)) ∧
    r.ok = true ∧ (a = .get → r.hit = false)

theorem Worker.On.get {w : Worker} {c c' : Nat} {a : Action} (h : w.On c a)
    (hstage : w.stage = .getting c') : a = .get := by
  cases a with
  | get => rfl
  | put u => exact absurd (hstage.symm.trans h) (by simp)
  | unsupported name => exact absurd h id

theorem Worker.On.put {w : Worker} {c c' : Nat} {a : Action} (h : w.On c a)
    (hstage : w.stage = .putting c') : ∃ u, a = .put u := by
  cases a with
  | get => exact absurd (hstage.symm.trans h) (by simp)
  | put u => exact ⟨u, rfl⟩
  | unsupported name => exact absurd h id

namespace Contention

/-- The store holds `now` for the key, and `done j` puts of worker `j` have been accepted. -/
structure Contended (rounds : Nat) (deltas : List Value) (s : Contention) (now : Value)
    (done : Nat → Nat) : Prop where
  team : s.workers.map (·.delta) = deltas
  members : s.cluster.members.length = deltas.length
  counts : ∀ (j : Nat) w, s.workers[j]? = some w → w.Counts rounds
  standing : ∀ (j : Nat) w m, s.workers[j]? = some w → s.cluster.members[j]? = some m →
    Standing s.cluster.calls s.key now j w m (done j)
  sum : now = Int64.ofInt (tally done 0 deltas)
  commands : ∀ command ∈ s.cluster.keeper.inbox.entries, ∃ i, command.sender = .client i
  only : ∀ k, k ≠ s.key → s.cluster.keeper.store.value k = none
  begun : (s.cluster.keeper.store.value s.key).isSome → 0 < rounds ∧ deltas ≠ []
  written : ∀ j, 0 < done j → (s.cluster.keeper.store.value s.key).isSome
  calls : ∀ (id : Nat) c, s.cluster.calls[id]? = some c →
    c.Fine ∨ ∃ (j : Nat) (w : Worker), s.workers[j]? = some w ∧ w.Awaits id

variable {rounds : Nat} {deltas : List Value} {s t : Contention} {now : Value} {done : Nat → Nat}
  {i j : Nat} {w : Worker} {m : Member}

theorem contended_start (key : Key) (rounds : Nat) (deltas : List Value) (depth : Nat) :
    Contended rounds deltas (start key rounds deltas depth) 0 fun _ => 0 where
  team := by simp [start, Function.comp_def]
  members := by simp [start, Cluster.start]
  counts := by
    intro j w hw
    simp only [start, List.getElem?_map, Option.map_eq_some_iff] at hw
    obtain ⟨delta, _, rfl⟩ := hw
    exact ⟨rfl, rfl, rfl⟩
  standing := by
    intro j w m hw hm
    simp only [start, List.getElem?_map, Option.map_eq_some_iff] at hw
    obtain ⟨delta, _, rfl⟩ := hw
    simp only [start, Cluster.start, List.getElem?_map, Option.map_eq_some_iff] at hm
    obtain ⟨client, _, rfl⟩ := hm
    exact .resting rfl rfl rfl (by simp [Member.start])
  sum := by
    rw [tally_of_even (n := 0) fun _ _ _ => rfl]
    simp
  commands := by simp [start, Cluster.start]
  only := by simp [start, Cluster.start, Store.value]
  begun := by simp [start, Cluster.start, Store.value]
  written := by simp
  calls := by simp [start, Cluster.start]

namespace Contended

variable (contended : Contended rounds deltas s now done)

include contended

theorem length_workers : s.workers.length = deltas.length := by
  rw [← contended.team, List.length_map]

theorem worker_of_member (hm : s.cluster.members[i]? = some m) : ∃ w, s.workers[i]? = some w := by
  obtain ⟨hi, _⟩ := List.getElem?_eq_some_iff.mp hm
  rw [contended.members, ← contended.length_workers] at hi
  exact ⟨_, List.getElem?_eq_getElem hi⟩

theorem member_of_worker (hw : s.workers[i]? = some w) : ∃ m, s.cluster.members[i]? = some m := by
  obtain ⟨hi, _⟩ := List.getElem?_eq_some_iff.mp hw
  rw [contended.length_workers, ← contended.members] at hi
  exact ⟨_, List.getElem?_eq_getElem hi⟩

theorem delta_of_worker (hw : s.workers[i]? = some w) : deltas[i]? = some w.delta := by
  rw [← contended.team, List.getElem?_map, hw]
  rfl

/-- Only worker `i` goes on, and the store keeps its tables. -/
theorem goes_on (i : Nat) (hkey : t.key = s.key)
    (hworkers : ∀ j, j ≠ i → t.workers[j]? = s.workers[j]?)
    (hdeltas : t.workers.map (·.delta) = s.workers.map (·.delta))
    (hmembers : ∀ j, j ≠ i → t.cluster.members[j]? = s.cluster.members[j]?)
    (hlength : t.cluster.members.length = s.cluster.members.length)
    (hothers : ∀ (c j : Nat) a status, j ≠ i →
      s.cluster.calls[c]? = some ⟨.client j a .attached, s.key, status⟩ →
        t.cluster.calls[c]? = some ⟨.client j a .attached, s.key, status⟩)
    (hi : ∀ w m, t.workers[i]? = some w → t.cluster.members[i]? = some m →
      w.Counts rounds ∧ Standing t.cluster.calls s.key now i w m (done i))
    (hstore : t.cluster.keeper.store = s.cluster.keeper.store)
    (hcommands : ∀ command ∈ t.cluster.keeper.inbox.entries, ∃ i, command.sender = .client i)
    (hcalls : ∀ (id : Nat) c, t.cluster.calls[id]? = some c →
      c.Fine ∨ ∃ (j : Nat) (w : Worker), t.workers[j]? = some w ∧ w.Awaits id) :
    Contended rounds deltas t now done where
  team := hdeltas.trans contended.team
  members := hlength.trans contended.members
  counts := by
    intro j w hw
    by_cases hji : j = i
    · subst hji
      have hlen : t.workers.length = t.cluster.members.length := by
        rw [hlength, contended.members, ← contended.length_workers]
        simpa using congrArg List.length hdeltas
      obtain ⟨hj, _⟩ := List.getElem?_eq_some_iff.mp hw
      rw [hlen] at hj
      exact (hi w _ hw (List.getElem?_eq_getElem hj)).1
    · exact contended.counts j w ((hworkers j hji).symm.trans hw)
  standing := by
    intro j w m hw hm
    rw [hkey]
    by_cases hji : j = i
    · subst hji
      exact (hi w m hw hm).2
    · rw [hworkers j hji] at hw
      rw [hmembers j hji] at hm
      exact (contended.standing j w m hw hm).frame fun c a status => hothers c j a status hji
  sum := contended.sum
  commands := hcommands
  only := by
    rw [hkey, hstore]
    exact contended.only
  begun := by
    rw [hkey, hstore]
    exact contended.begun
  written := by
    rw [hkey, hstore]
    exact contended.written
  calls := hcalls

end Contended

/-! ## The actors move -/

section

variable {es : List Event} {e : Event} {cluster : Cluster}

theorem contended_begin (contended : Contended rounds deltas s (lastWritten es s.key) done)
    (coherent : s.cluster.scene.Coherent es) (hrun : s.cluster.keeper.running = true)
    (h : s.cluster.begin i = some (cluster, e)) :
    Contended rounds deltas { s with cluster } (lastWritten es s.key) done ∧
      ∃ job, e = .asked i job := by
  obtain ⟨m, ⟨c, a, k⟩, rest, cache, hm, hmrun, hwork, hentries, hcases⟩ := Cluster.begin_cases h
  obtain ⟨w, hw⟩ := contended.worker_of_member hm
  obtain ⟨rfl, rfl, errand, hdone⟩ := (contended.standing i w m hw hm).of_entries hentries
  have hhand := Cluster.hand_of_member hm hmrun
  have hnow : ∀ v, m.cache[s.key]? = some v → v = lastWritten es s.key := fun v hv =>
    coherent.shown i _ s.key v hhand ((Hand.shows_of_idle hwork).mpr hv)
  obtain ⟨r, hstart, _⟩ | ⟨hstart, _, rfl, rfl⟩ | ⟨_, hstopped, _⟩ := hcases
  · cases (errand.begins hnow hstart).1
  · refine ⟨contended.goes_on i rfl (fun _ _ => rfl) rfl ?_ (by simp) (fun _ _ _ _ _ hc => hc) ?_
      rfl ?_ contended.calls, _, rfl⟩
    · intro j hji
      rw [Cluster.members_send, Cluster.members_onMember, if_neg (Ne.symm hji)]
    · intro w' m' hw' hm'
      obtain rfl := Option.some.inj (hw.symm.trans hw')
      rw [Cluster.members_send, Cluster.members_onMember, if_pos rfl, hm] at hm'
      obtain rfl := Option.some.inj hm'
      refine ⟨contended.counts i w hw, ?_⟩
      rw [hdone]
      exact .working c a (.asked .empty) (errand.begins hnow hstart).2
    · intro command hcommand
      rw [Cluster.entries_send] at hcommand
      rcases List.mem_append.mp hcommand with hcommand | hcommand
      · exact contended.commands command hcommand
      · rw [List.mem_singleton.mp hcommand]
        exact ⟨i, rfl⟩
  · exact absurd hrun (ne_true_of_eq_false hstopped)

/-- A change of one call's status is seen only by the worker that waits for it. -/
theorem others_onCall {c : Nat} {a : Action} {status : Status} {g : Call → Call} {u : Cluster}
    (hc : u.calls[c]? = some ⟨.client i a .attached, s.key, status⟩) :
    ∀ (c' j : Nat) a' status', j ≠ i →
      u.calls[c']? = some ⟨.client j a' .attached, s.key, status'⟩ →
        (u.onCall c g).calls[c']? = some ⟨.client j a' .attached, s.key, status'⟩ := by
  intro c' j a' status' hji hc'
  rw [Cluster.calls_onCall, if_neg]
  · exact hc'
  · rintro rfl
    rw [hc] at hc'
    cases hc'
    exact hji rfl

/-- The call that a worker waits for may change as the worker stands. -/
theorem calls_onCall {c : Nat} {g : Call → Call} {u : Cluster}
    (hcalls : ∀ (id : Nat) c, u.calls[id]? = some c →
      c.Fine ∨ ∃ (j : Nat) (w : Worker), s.workers[j]? = some w ∧ w.Awaits id)
    (hw : s.workers[i]? = some w) (hwaits : w.Awaits c) :
    ∀ (id : Nat) c', (u.onCall c g).calls[id]? = some c' →
      c'.Fine ∨ ∃ (j : Nat) (w : Worker), s.workers[j]? = some w ∧ w.Awaits id := by
  intro id c' hc'
  rw [Cluster.calls_onCall] at hc'
  split at hc'
  · rename_i hid
    subst hid
    exact Or.inr ⟨i, w, hw, hwaits⟩
  · exact hcalls id c' hc'

theorem contended_resume (contended : Contended rounds deltas s now done)
    (h : s.cluster.resume i = some (cluster, e)) :
    Contended rounds deltas { s with cluster } now done ∧ ∃ job r, e = .answered i job r := by
  obtain ⟨m, ⟨c, a, k⟩, slot, answer, cache, r, hm, hwork, hanswer, hfinish, rfl, rfl⟩ :=
    Cluster.resume_cases h
  obtain ⟨w, hw⟩ := contended.worker_of_member hm
  obtain ⟨rfl, errand, hdone⟩ := (contended.standing i w m hw hm).of_work hwork
  refine ⟨contended.goes_on i rfl (fun _ _ => rfl) rfl ?_ (by simp [Cluster.answer])
    (others_onCall errand.call) ?_ rfl contended.commands
    (calls_onCall contended.calls hw errand.stage.awaits), _, _, rfl⟩
  · intro j hji
    rw [Cluster.members_answer, Cluster.members_onMember, if_neg (Ne.symm hji)]
  · intro w' m' hw' hm'
    obtain rfl := Option.some.inj (hw.symm.trans hw')
    rw [Cluster.members_answer, Cluster.members_onMember, if_pos rfl, hm] at hm'
    obtain rfl := Option.some.inj hm'
    refine ⟨contended.counts i w hw, ?_⟩
    have hcall : (Cluster.answer (s.cluster.onMember i fun _ => { m with cache, work := none })
        ⟨c, a, s.key⟩ r).calls[c]? = some ⟨.client i a .attached, s.key, (Leg.told r).status⟩ := by
      rw [Cluster.answer, Cluster.calls_onCall, if_pos rfl, Cluster.calls_onMember, errand.call]
      rfl
    obtain ⟨errand', haccepted⟩ := errand.resumes hanswer hfinish hcall
    rw [hdone, ← haccepted]
    exact .working c a (.told r) errand'

/-- Only a call that has been answered can be finished. -/
theorem told_of_outcome {leg : Leg} {c : Call} {o : Outcome} {u : Cluster}
    (hstatus : c.status = leg.status) (ho : u.outcome? c = some o) :
    ∃ r, leg = .told r ∧ o = .answered (.client r) := by
  cases leg with
  | queued => simp [Cluster.outcome?, hstatus, Leg.status] at ho
  | asked slot => simp [Cluster.outcome?, hstatus, Leg.status] at ho
  | told r =>
    simp only [Cluster.outcome?, hstatus, Leg.status, Option.some.injEq] at ho
    exact ⟨r, rfl, ho.symm⟩
  | noted r => simp [Cluster.outcome?, hstatus, Leg.status] at ho

theorem contended_finish {id : Nat} (contended : Contended rounds deltas s now done)
    (h : s.cluster.finish id = some (cluster, e)) :
    Contended rounds deltas { s with cluster } now done ∧ ∃ o, e = .ended id o := by
  obtain ⟨c, o, hc, ho, rfl, rfl⟩ := Cluster.finish_cases h
  rcases contended.calls id c hc with ⟨_, _, _, _, hended, _⟩ | ⟨i, w, hw, hwaits⟩
  · simp [Cluster.outcome?, hended] at ho
  · obtain ⟨m, hm⟩ := contended.member_of_worker hw
    obtain ⟨a, leg, errand, hdone⟩ := (contended.standing i w m hw hm).of_awaits hwaits
    obtain rfl := Option.some.inj (hc.symm.trans errand.call)
    obtain ⟨r, rfl, rfl⟩ := told_of_outcome rfl ho
    refine ⟨contended.goes_on i rfl (fun _ _ => rfl) rfl (fun _ _ => rfl) rfl
      (others_onCall errand.call) ?_ rfl contended.commands
      (calls_onCall contended.calls hw hwaits), _, rfl⟩
    intro w' m' hw' hm'
    obtain rfl := Option.some.inj (hw.symm.trans hw')
    obtain rfl := Option.some.inj (hm.symm.trans hm')
    refine ⟨contended.counts i w hw, ?_⟩
    rw [hdone]
    refine .working id a (.noted r) (errand.notes ?_)
    rw [Cluster.calls_onCall, if_pos rfl, errand.call]
    rfl

/-- While somebody can still reach them, neither a client nor the store leaves. -/
theorem nobody_leaves {mv : Custody.Move} (attended : Cluster.Attended .clientsOnly s.cluster)
    (h : s.cluster.fire mv = some (cluster, e)) : (∀ i, mv ≠ .leave i) ∧ mv ≠ .retire := by
  constructor
  · rintro i rfl
    obtain ⟨m, hm, _, _, _, hreaches, _⟩ := Cluster.leave_cases h
    have hhandle := ((attended.orderly i m hm).2 id).1
    simp [Cluster.reaches, hhandle] at hreaches
  · rintro rfl
    obtain ⟨_, _, hreaches, _⟩ := Cluster.retire_cases h
    simp [Cluster.reachesStore, (attended.kept id).1] at hreaches

end

end Contention

end Custody
