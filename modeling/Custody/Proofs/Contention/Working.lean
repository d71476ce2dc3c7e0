import Custody.Proofs.Contention.Invariant

/-!
# A worker takes its turn

A worker makes its next call only when it has taken note of the one before, and that one came off.
-/

namespace Custody

theorem map_set_of_same {α β : Type} {f : α → β} {l : List α} {i : Nat} {a b : α}
    (h : l[i]? = some a) (hf : f b = f a) : (l.set i b).map f = l.map f := by
  apply List.ext_getElem?
  intro j
  rw [List.getElem?_map, List.getElem?_map, List.getElem?_set]
  split
  · rename_i hij
    subst hij
    obtain ⟨hi, rfl⟩ := List.getElem?_eq_some_iff.mp h
    simp [hi, hf]
  · rfl

namespace Contention

variable {rounds : Nat} {deltas : List Value} {s t : Contention} {now : Value} {done : Nat → Nat}
  {j : Nat} {w w' : Worker} {cluster : Cluster}

theorem worker_set (hw : s.workers[j]? = some w) (l : Nat) :
    (s.workers.set j w')[l]? = if l = j then some w' else s.workers[l]? := by
  obtain ⟨hj, _⟩ := List.getElem?_eq_some_iff.mp hw
  rw [List.getElem?_set]
  by_cases hlj : l = j
  · simp [hlj, hj]
  · rw [if_neg (Ne.symm hlj), if_neg hlj]

theorem noted_of_ended {leg : Leg} {o : Outcome} (h : leg.status = .ended o) :
    ∃ r, leg = .noted r ∧ o = .answered (.client r) := by
  cases leg with
  | queued => cases h
  | asked slot => cases h
  | told r => cases h
  | noted r =>
    cases h
    exact ⟨r, rfl, rfl⟩

/-- The call that a worker is done with. -/
theorem fine_of_errand {c : Nat} {a : Action} {r : ClientReply} {m : Member}
    (errand : Errand s.cluster.calls s.key now j w m c a (.noted r)) {call : Call}
    (hcall : s.cluster.calls[c]? = some call) : call.Fine := by
  obtain rfl := Option.some.inj (hcall.symm.trans errand.call)
  exact ⟨j, a, r, rfl, rfl, errand.succeeds.1, errand.succeeds.2⟩

/-- Once worker `j` has let go of a call that came off, every call is accounted for. -/
theorem Contended.calls_set (contended : Contended rounds deltas s now done)
    (hw : s.workers[j]? = some w)
    (hold : ∀ (id : Nat) c, s.cluster.calls[id]? = some c → w.Awaits id → c.Fine)
    {id : Nat} {c : Call} (hc : s.cluster.calls[id]? = some c) :
    c.Fine ∨ ∃ (l : Nat) (x : Worker), (s.workers.set j w')[l]? = some x ∧ x.Awaits id := by
  rcases contended.calls id c hc with hfine | ⟨l, x, hx, hwaits⟩
  · exact Or.inl hfine
  · by_cases hlj : l = j
    · subst hlj
      obtain rfl := Option.some.inj (hw.symm.trans hx)
      exact Or.inl (hold id c hc hwaits)
    · exact Or.inr ⟨l, x, by rw [worker_set hw, if_neg hlj, hx], hwaits⟩

/-- A worker whose client has nothing to do makes a call and waits for it. -/
theorem contended_called {a : Action} (contended : Contended rounds deltas s now done)
    (attended : Cluster.Attended .clientsOnly s.cluster) (hw : s.workers[j]? = some w)
    (hdelta : w'.delta = w.delta) (hcounts : w'.Counts rounds)
    (hon : w'.On s.cluster.calls.length a) (hdone : done j = w'.puts)
    (hready : ∀ m, s.cluster.members[j]? = some m → m.inbox.entries = [] ∧ m.work = none ∧
      Leg.queued.Goes a s.key m.cache now w'.delta)
    (hold : ∀ (id : Nat) c, s.cluster.calls[id]? = some c → w.Awaits id → c.Fine)
    (hcall : s.cluster.call (.client j a .attached) s.key = some cluster) :
    Contended rounds deltas (s.called j cluster w') now done := by
  obtain ⟨m, hm, _, ⟨_, hcluster⟩ | ⟨hstopped, _⟩⟩ := Cluster.call_client_cases hcall
  · obtain ⟨hentries, hwork, hgoes⟩ := hready m hm
    have hcalls : cluster.calls =
        s.cluster.calls ++ [⟨.client j a .attached, s.key, Leg.queued.status⟩] := by
      rw [hcluster]
      rfl
    have hmembers : ∀ l, cluster.members[l]? = if j = l then s.cluster.members[l]?.map (fun m =>
        { m with inbox := m.inbox.push ⟨s.cluster.calls.length, a, s.key⟩ })
          else s.cluster.members[l]? := by
      intro l
      rw [hcluster, Cluster.members_onMember]
      rfl
    refine contended.goes_on j rfl ?_ (map_set_of_same hw hdelta) ?_ ?_ ?_ ?_ ?_ ?_ ?_
    · intro l hlj
      exact (worker_set hw l).trans (if_neg hlj)
    · intro l hlj
      exact (hmembers l).trans (if_neg (Ne.symm hlj))
    · change cluster.members.length = _
      rw [hcluster, Cluster.length_members_onMember]
      rfl
    · intro c l a' status hlj hc
      obtain ⟨hlt, _⟩ := List.getElem?_eq_some_iff.mp hc
      change cluster.calls[c]? = _
      rw [hcalls, List.getElem?_append_left hlt]
      exact hc
    · intro x m' hx hm'
      obtain rfl : w' = x := by simpa [called, worker_set hw] using hx
      have hpushed := (hmembers j).symm.trans hm'
      rw [if_pos rfl, hm] at hpushed
      obtain rfl := Option.some.inj hpushed
      refine ⟨hcounts, ?_⟩
      rw [hdone]
      refine .working s.cluster.calls.length a .queued ⟨hon, ?_, ?_, hwork, hgoes⟩
      · change cluster.calls[_]? = _
        simp [hcalls]
      · simp [Inbox.push, hentries, Leg.inbox]
    · change cluster.keeper.store = _
      rw [hcluster]
      rfl
    · intro command hcommand
      refine contended.commands command ?_
      change command ∈ cluster.keeper.inbox.entries at hcommand
      rw [hcluster] at hcommand
      exact hcommand
    · intro id c hc
      change cluster.calls[id]? = _ at hc
      rw [hcalls, List.getElem?_append] at hc
      split at hc
      · exact contended.calls_set hw hold hc
      · obtain ⟨hzero, _⟩ := List.getElem?_eq_some_iff.mp hc
        rw [List.length_singleton] at hzero
        obtain rfl : id = s.cluster.calls.length := by omega
        exact Or.inr ⟨j, w', by simp [called, worker_set hw], hon.awaits⟩
  · exact absurd ((attended.orderly j m hm).2 id).2 (by simp [hstopped])

theorem ended_cases {id : Nat} {o : Outcome} {u : Cluster} (h : u.ended? id = some o) :
    ∃ c, u.calls[id]? = some c ∧ c.status = .ended o := by
  obtain ⟨c, hc, h⟩ := Option.bind_eq_some_iff.mp h
  refine ⟨c, hc, ?_⟩
  split at h
  · rename_i o' hstatus
    rw [hstatus, Option.some.inj h]
  · cases h

/-- A call that has ended for its worker came off. -/
theorem Contended.errand_of_ended {id : Nat} {o : Outcome}
    (contended : Contended rounds deltas s now done) (hw : s.workers[j]? = some w)
    (hwaits : w.Awaits id) (hended : s.cluster.ended? id = some o) :
    ∃ m a r, s.cluster.members[j]? = some m ∧ o = .answered (.client r) ∧
      Errand s.cluster.calls s.key now j w m id a (.noted r) ∧
      done j = w.puts + ((Leg.noted r).accepted a).toNat := by
  obtain ⟨m, hm⟩ := contended.member_of_worker hw
  obtain ⟨a, leg, errand, hdone⟩ := (contended.standing j w m hw hm).of_awaits hwaits
  obtain ⟨c, hc, hstatus⟩ := ended_cases hended
  obtain rfl := Option.some.inj (hc.symm.trans errand.call)
  obtain ⟨r, rfl, rfl⟩ := noted_of_ended hstatus
  exact ⟨m, a, r, hm, rfl, errand, hdone⟩

section

variable (contended : Contended rounds deltas s now done)
  (attended : Cluster.Attended .clientsOnly s.cluster) (hw : s.workers[j]? = some w)

include contended attended hw

theorem contended_get {n : Nat} (hstage : w.stage = .resting) (hrounds : w.rounds = n + 1)
    (hcall : s.cluster.call (.client j .get .attached) s.key = some cluster) :
    Contended rounds deltas (s.called j cluster
      { w with rounds := n, stage := .getting s.cluster.calls.length }) now done := by
  obtain ⟨hhits, hgets, htotal⟩ := (contended.counts j w hw).of_resting hstage
  obtain ⟨m, hm⟩ := contended.member_of_worker hw
  obtain ⟨hentries, hwork, hmiss, hdone⟩ := (contended.standing j w m hw hm).of_resting hstage
  refine contended_called (a := .get) contended attended hw rfl ⟨hhits, hgets, ?_⟩ rfl hdone
    ?_ ?_ hcall
  · change n + w.puts + 1 = rounds
    omega
  · intro m' hm'
    obtain rfl := Option.some.inj (hm.symm.trans hm')
    exact ⟨hentries, hwork, hmiss⟩
  · intro id c _ hwaits
    exact absurd hwaits (Worker.not_awaits hstage)

theorem contended_put {id : Nat} {r : ClientReply} (hstage : w.stage = .getting id)
    (hended : s.cluster.ended? id = some (.answered (.client r)))
    (hcall : s.cluster.call (.client j (.put (r.value + w.delta)) .attached) s.key =
      some cluster) :
    Contended rounds deltas (s.called j cluster
      { w.got r with stage := .putting s.cluster.calls.length }) now done := by
  obtain ⟨hhits, hgets, htotal⟩ := (contended.counts j w hw).of_getting hstage
  obtain ⟨m, a, r', hm, ho, errand, hdone⟩ := contended.errand_of_ended hw (Or.inl hstage) hended
  obtain rfl := Answer.client.inj (Outcome.answered.inj ho)
  obtain rfl := errand.stage.get hstage
  obtain ⟨v, rfl, hcache⟩ := errand.goes
  have hcounts : Worker.Counts
      { w.got (.fetched v) with stage := .putting s.cluster.calls.length } rounds :=
    ⟨hhits, congrArg (· + 1) hgets, htotal⟩
  refine contended_called (a := .put (v + w.delta)) contended attended hw rfl hcounts rfl hdone
    ?_ ?_ hcall
  · intro m' hm'
    obtain rfl := Option.some.inj (hm.symm.trans hm')
    exact ⟨errand.entries, errand.work, v, hcache, rfl⟩
  · intro id' c hc hwaits
    obtain rfl := hwaits.unique (Or.inl hstage)
    exact fine_of_errand errand hc

omit attended

/-- A worker that takes note of its put rests. -/
theorem contended_did {id : Nat} {r : ClientReply} (hstage : w.stage = .putting id)
    (hended : s.cluster.ended? id = some (.answered (.client r))) :
    Contended rounds deltas (s.onWorker j (w.did r)) now done := by
  obtain ⟨hhits, hgets, htotal⟩ := (contended.counts j w hw).of_putting hstage
  obtain ⟨m, a, r', hm, ho, errand, hdone⟩ := contended.errand_of_ended hw (Or.inr hstage) hended
  obtain rfl := Answer.client.inj (Outcome.answered.inj ho)
  obtain ⟨u, rfl⟩ := errand.stage.put hstage
  obtain ⟨rfl, hmiss⟩ := errand.goes
  refine contended.goes_on j rfl (fun l hlj => (worker_set hw l).trans (if_neg hlj))
    (map_set_of_same hw rfl) (fun _ _ => rfl) rfl (fun _ _ _ _ _ hc => hc) ?_ rfl
    contended.commands fun id' c hc => contended.calls_set hw ?_ hc
  · intro x m' hx hm'
    obtain rfl : w.did .released = x := by simpa [onWorker, worker_set hw] using hx
    obtain rfl := Option.some.inj (hm.symm.trans hm')
    refine ⟨⟨hhits, hgets, ?_⟩, ?_⟩
    · change w.rounds + (w.puts + 1) = rounds
      omega
    · rw [hdone]
      exact .resting rfl errand.entries errand.work hmiss
  · intro id' c hc hwaits
    obtain rfl := hwaits.unique (Or.inr hstage)
    exact fine_of_errand errand hc

end

theorem contended_work (contended : Contended rounds deltas s now done)
    (attended : Cluster.Attended .clientsOnly s.cluster) (h : s.work j = some t) :
    Contended rounds deltas t now done := by
  obtain ⟨w, hw, ⟨n, cluster, hstage, hrounds, hcall, rfl⟩ |
    ⟨id, r, cluster, hstage, hended, hcall, rfl⟩ | ⟨id, r, hstage, hended, rfl⟩ |
    ⟨id, o, hstage, hended, hfailed, rfl⟩⟩ := work_cases h
  · exact contended_get contended attended hw hstage hrounds hcall
  · exact contended_put contended attended hw hstage hended hcall
  · exact contended_did contended hw hstage hended
  · obtain ⟨m, a, r, _, rfl, _⟩ := contended.errand_of_ended hw hstage hended
    exact absurd rfl (hfailed r)

end Contention

end Custody
