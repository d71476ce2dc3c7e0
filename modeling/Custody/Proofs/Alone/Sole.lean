import Custody.Proofs.Alone.Undisturbed

/-!
# The only user of a store

A client whose store serves nobody else is a map of registers, used directly or through its inbox
and whatever the depths of the queues. In a cluster all keys are its own, so at any time the store
shows what it would show after the actions answered so far, or after these and the one in hand.
-/

namespace Custody

/-- The client has cached what the store owns, with the values of the store, and nobody waits. The
store knows the keys that have been read. It owns the keys that the map holds, and it has the
values of the map. -/
structure Solo.Follows (s : Solo) (registers : Register) (actions : List (Key × Action)) :
    Prop where
  cached : ∀ k v, s.cache[k]? = some v ↔ s.store.isOwned k = true ∧ s.store.value k = some v
  known : ∀ k, (s.store.value k).isSome ↔ (k, .get) ∈ actions
  owned : ∀ k, s.store.isOwned k = registers.held k
  values : ∀ k, (s.store.value k).getD 0 = registers.values k
  unwaited : s.store.snapshot.waiting = []

theorem Solo.follows_run (actions : List (Key × Action)) :
    (run {} actions).1.Follows (Register.run {} actions).1 actions := by
  have tracks := (tracks_all actions).2
  refine ⟨fun k v => ?_, tracks.known, tracks.owned, tracks.value, ?_⟩
  · rw [tracks.cached, tracks.owned]
    by_cases hheld : (Register.run {} actions).1.held k = true
    · obtain ⟨u, hu⟩ := Option.isSome_iff_exists.mp ((tracks.known k).mpr (tracks.taken k hheld))
      have hvalue := tracks.value k
      rw [hu] at hvalue
      rw [if_pos hheld, hu, ← hvalue]
      simp [hheld]
    · simp [hheld]
  · rw [List.eq_nil_iff_forall_not_mem]
    intro k hk
    have hwaits : k ∈ (run {} actions).1.store.waiters := Std.ExtTreeMap.mem_keys.mp hk
    obtain ⟨x, hx⟩ := Option.isSome_iff_exists.mp
      (Std.ExtTreeMap.isSome_getElem?_iff_mem.mpr hwaits)
    exact absurd ((tracks.free k).symm.trans hx) nofun

namespace Cluster

variable {setup : Setup} {s : Cluster} {labels : List Label} {es : List Event} {i : Nat}
  {m : Member}

theorem parts_of_sole (sole : ∀ x ∈ uses labels, x.2 = some i) :
    ∀ l ∈ labels, l.Parts (fun _ => True) i := fun l hl _ _ huse =>
  iff_of_true trivial (sole _ (List.mem_filterMap.mpr ⟨l, hl, huse⟩))

/-- The store is ahead of the client's answers by the job in hand at most. -/
theorem Mirrors.snapshot {jobs : List Job}
    (mirrors : s.Mirrors (fun _ => True) i (Solo.after jobs).1 m) :
    ∃ done, (done = [] ∨ done = m.current) ∧
      s.keeper.store.snapshot = (Solo.after (jobs ++ done)).1.store.snapshot := by
  cases mirrors with
  | idle hidle hcache hsent shows =>
    refine ⟨[], Or.inl rfl, ?_⟩
    rw [List.append_nil]
    exact Store.snapshot_of_shows fun k => shows k trivial
  | asked job hwork hmine hstart hsent shows =>
    refine ⟨[], Or.inl rfl, ?_⟩
    rw [List.append_nil]
    exact Store.snapshot_of_shows fun k => shows k trivial
  | told job answer hwork hstart hreply hsent shows =>
    refine ⟨[job], Or.inr (by rw [Member.current, hwork]; rfl), ?_⟩
    rw [Solo.after_snoc, Solo.perform_asked hstart hreply rfl]
    exact Store.snapshot_of_shows fun k => shows k trivial

/-- First the client is used directly, for any actions. Then client `i` is called, in a cluster of
any depths, and nobody else uses the store. It gives the same replies, which reach its callers, and
the store shows the same. -/
theorem sole_client_is_a_register_map :
    (∀ actions, (Solo.run {} actions).2 = (Register.run {} actions).2.map some ∧
      (Solo.run {} actions).1.Follows (Register.run {} actions).1 actions) ∧
    ∀ setup labels s es i m, (start setup).run labels = some (s, es) →
      (∀ x ∈ uses labels, x.2 = some i) → .act .killStore ∉ labels →
      .act (.killClient i) ∉ labels → s.members[i]? = some m →
      (∀ r d, .served r (.parked d) ∈ es → r.who ≠ .client i) ∧
      (s.Quiescent → m.work = none ∧
        answeredBy es i = s.agenda i ((start setup).skipped i labels) ∧
        ∀ (c : Nat) call a manner, s.calls[c]? = some call → call.target = .client i a manner →
          call.status = .cancelled ∨ ∃ job r, (job, r) ∈ repliesOf es i ∧ job.call = c ∧
            call.status.receipt = .full (.client r)) ∧
      (repliesOf es i).map (fun x => some x.2) = (Solo.after (answeredBy es i)).2 ∧
      (m.work = none → m.running = true → m.cache = (Solo.after (answeredBy es i)).1.cache) ∧
      (s.keeper.running = true → ∃ done, (done = [] ∨ done = m.current) ∧
        s.keeper.store.snapshot = (Solo.after (answeredBy es i ++ done)).1.store.snapshot) := by
  refine ⟨fun actions => ⟨(Solo.tracks_all actions).1, Solo.follows_run actions⟩, ?_⟩
  intro setup labels s es i m h sole hstore hclient hm
  have attended := attended_of_run h hstore
  have attuned := attuned_run h (parts_of_sole sole) hstore hclient hm
  refine ⟨attuned.unparked, fun hquiet => ?_, attuned.replies,
    fun hidle hrun => attuned.cache_eq attended hm hidle hrun,
    fun hrun => (attuned.mirrors hrun).snapshot⟩
  have hidle := attuned.idle_of_quiescent attended hm hquiet
  exact ⟨hidle, (answeredBy_of_quiescent h hclient hm hidle hquiet).1,
    fun c call a manner hcall htarget =>
      told_of_quiescent h hclient hm hidle hquiet hcall htarget⟩

/-- A key is got, put back and put again; another one is got while the first put is under way. -/
def soleLabels : List Label :=
  [.act (.call (.client 0 .get .attached) "k"), .move (.begin 0), .move .serve, .move (.resume 0),
    .act (.call (.client 0 (.put 5) .attached) "k"), .move (.begin 0),
    .act (.call (.client 0 (.put 6) .attached) "k"),
    .act (.call (.client 0 .get (.dispatched true)) "l"), .move .serve, .move (.resume 0),
    .move (.begin 0), .move (.begin 0), .move .serve, .move (.resume 0)]

theorem sole_client_is_a_register_map_of_four :
    ∃ s es m, (start ⟨[⟨"a", 0⟩], 3⟩).run soleLabels = some (s, es) ∧ s.members[0]? = some m ∧
      s.Quiescent ∧ (repliesOf es 0).map (·.2) =
        [.fetched 0, .released, .failed .localCacheMiss, .fetched 0] ∧
      (repliesOf es 0).map (fun x => some x.2) = (Solo.after (answeredBy es 0)).2 ∧
      answeredBy es 0 = [⟨0, .get, "k"⟩, ⟨1, .put 5, "k"⟩, ⟨2, .put 6, "k"⟩, ⟨3, .get, "l"⟩] ∧
      s.keeper.store.snapshot = (Solo.after (answeredBy es 0)).1.store.snapshot ∧
      (Solo.after (answeredBy es 0)).2 = (Register.run {} [("k", .get), ("k", .put 5),
        ("k", .put 6), ("l", .get)]).2.map some := by
  obtain ⟨s, es, m, h, hm, hquiet, hreplies, hskipped, hagenda, hrun, hkeeper⟩ : ∃ s es m,
      (start ⟨[⟨"a", 0⟩], 3⟩).run soleLabels = some (s, es) ∧ s.members[0]? = some m ∧
        s.Quiescent ∧ (repliesOf es 0).map (·.2) =
          [.fetched 0, .released, .failed .localCacheMiss, .fetched 0] ∧
        (start ⟨[⟨"a", 0⟩], 3⟩).skipped 0 soleLabels = [] ∧
        s.agenda 0 [] = [⟨0, .get, "k"⟩, ⟨1, .put 5, "k"⟩, ⟨2, .put 6, "k"⟩, ⟨3, .get, "l"⟩] ∧
        m.running = true ∧ s.keeper.running = true := by
    exact ⟨_, _, _, rfl, rfl, quiescent_of_moves rfl, rfl, rfl, rfl, rfl, rfl⟩
  obtain ⟨hdirect, htask⟩ := sole_client_is_a_register_map
  obtain ⟨_, hdone, hsame, _, hsnapshot⟩ :=
    htask _ _ s es 0 m h (by decide) (by decide) (by decide) hm
  obtain ⟨hidle, hall, _⟩ := hdone hquiet
  rw [hskipped, hagenda] at hall
  obtain ⟨done, hempty, hshown⟩ := hsnapshot hkeeper
  have hnothing : done = [] := by
    rw [Member.current, hidle] at hempty
    rcases hempty with rfl | rfl <;> rfl
  rw [hnothing, List.append_nil] at hshown
  refine ⟨s, es, m, h, hm, hquiet, hreplies, hsame, hall, hshown, ?_⟩
  rw [hall]
  exact (hdirect [("k", .get), ("k", .put 5), ("k", .put 6), ("l", .get)]).1

end Cluster

end Custody
