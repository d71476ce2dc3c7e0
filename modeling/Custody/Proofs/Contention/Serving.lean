import Custody.Proofs.Contention.Invariant

/-!
# The store serves a worker

With two clients at most nobody is ever displaced: one that is parked waits for the other, and the
other, which has the key, does not ask for it. So each request is a get that is granted sooner or
later, or a put that adds a delta to what the store holds.
-/

namespace Custody

namespace Contention

variable {rounds : Nat} {deltas : List Value} {s : Contention} {es : List Event}
  {present : Requester → Bool} {r : Request Requester} {i j : Nat}

/-- What client `j` holds nobody else writes. -/
theorem lastWritten_of_held {a : Scene} {h : Hand} {k : Key} (coherent : a.Coherent es)
    (hr : r ∈ a.queue) (hj : a.hand j = some h) (hk : h.Holds k)
    (hwrote : (Event.served r (a.store.handle present r).2).wroteBy j = false) :
    lastWritten (es ++ [.served r (a.store.handle present r).2]) k = lastWritten es k := by
  rw [lastWritten_snoc, publish_of_not_writes]
  rintro ⟨v, hwrite⟩
  obtain ⟨hkey, n, hv⟩ := write_served hwrite
  have htouched : ¬ (Event.served r (a.store.handle present r).2).Spares k :=
    fun hspares => hspares.2 ⟨v, hwrite⟩
  have hcustody := coherent.held j h k hj hk
  obtain ⟨_, hnone | ⟨l, hwho, hl⟩⟩ := coherent.custody_of_touched hr htouched
  · rw [hcustody] at hnone
    cases hnone
  · obtain rfl := Custodian.client.inj (Option.some.inj (hcustody.symm.trans hl))
    rw [wroteBy_served.mpr ⟨hwho, v, n, hv⟩] at hwrote
    cases hwrote

section

variable (contended : Contended rounds deltas s (lastWritten es s.key) (writesBy es))
  (coherent : s.cluster.scene.Coherent es) (lossless : s.cluster.scene.Lossless es)
  (hr : r ∈ s.cluster.requests)

include contended

theorem Contended.two (hlen : deltas.length ≤ 2) {h : Hand} (hi : s.cluster.hand i = some h) :
    i < 2 := by
  obtain ⟨m, hm, _⟩ := Cluster.hand_eq_some_iff.mp hi
  obtain ⟨hlt, _⟩ := List.getElem?_eq_some_iff.mp hm
  rw [contended.members] at hlt
  omega

include coherent lossless hr

/-- Whoever has sent a request is a worker's client, and asks for the key. -/
theorem Contended.errand_of_request (hwho : r.who = .client i) :
    ∃ w m a, s.workers[i]? = some w ∧ s.cluster.members[i]? = some m ∧ a.operation = r.op ∧
      r.key = s.key ∧
      ∃ c, Errand s.cluster.calls s.key (lastWritten es s.key) i w m c a (.asked .empty) := by
  obtain ⟨h, hi⟩ := lossless.staffed r hr i hwho
  obtain ⟨a, ⟨c, hwork⟩, hop⟩ := coherent.asked r hr i h hwho hi
  obtain ⟨m, hm, _, rfl⟩ := Cluster.hand_eq_some_iff.mp hi
  obtain ⟨w, hw⟩ := contended.worker_of_member hm
  obtain ⟨hkey, errand, _⟩ := (contended.standing i w m hw hm).of_work hwork
  exact ⟨w, m, a, hw, hm, hop, hkey, c, errand⟩

theorem Contended.nobody_displaced (hlen : deltas.length ≤ 2) (hwho : r.who = .client i) (j : Nat) :
    (s.cluster.keeper.store.handle present r).2 ≠ .parked (some (.client j)) := by
  intro hv
  obtain ⟨l, hli, hlj, hij, hlive⟩ := lossless.third_of_displaced coherent hr hwho hv
  obtain ⟨_, hi⟩ := hlive i (Or.inl rfl)
  obtain ⟨_, hj⟩ := hlive j (Or.inr (Or.inl rfl))
  obtain ⟨_, hl⟩ := hlive l (Or.inr (Or.inr rfl))
  have := contended.two hlen hi
  have := contended.two hlen hj
  have := contended.two hlen hl
  omega

/-- An accepted put adds its delta to the sum. -/
theorem Contended.sum_served (hwho : r.who = .client i) :
    lastWritten (es ++ [.served r (s.cluster.keeper.store.handle present r).2]) s.key =
      Int64.ofInt (tally
        (writesBy (es ++ [.served r (s.cluster.keeper.store.handle present r).2])) 0 deltas) := by
  obtain ⟨w, m, a, hw, hm, hop, hkey, c, errand⟩ :=
    contended.errand_of_request coherent lossless hr hwho
  by_cases haccepted : ∃ u n, (s.cluster.keeper.store.handle present r).2 = .accepted u n
  · obtain ⟨u, n, hv⟩ := haccepted
    rw [(Store.op_of_accepted hv).1] at hop
    have hu : u = lastWritten es s.key + w.delta := by
      have hgoes := errand.goes
      cases a with
      | get => cases hop
      | put u' =>
        obtain rfl := Operation.write.inj hop
        obtain ⟨_, ⟨_, hu⟩ | ⟨v, hfull⟩⟩ := hgoes
        · exact hu
        · cases hfull
      | unsupported name => cases hop
    have hwrote : writesBy (es ++ [.served r (s.cluster.keeper.store.handle present r).2]) =
        Function.update (writesBy es) i (writesBy es i + 1) := by
      refine writesBy_of_wrote (wroteBy_served.mpr ⟨hwho, u, n, hv⟩) fun j hj => ?_
      have hother := (wroteBy_served.mp hj).1
      exact Requester.client.inj (hother.symm.trans hwho)
    have hlast : lastWritten (es ++ [.served r (s.cluster.keeper.store.handle present r).2]) s.key =
        u := by
      rw [lastWritten_snoc, hv]
      simp [Event.publish, Event.write?, hkey]
    have hbump := tally_bump (writesBy es) 0 (contended.delta_of_worker hw)
    rw [Nat.zero_add] at hbump
    rw [hlast, hwrote, hbump, Int64.ofInt_add, Int64.ofInt_toInt, ← contended.sum, hu]
  · have hwrote : ∀ j, (Event.served r (s.cluster.keeper.store.handle present r).2).wroteBy j =
        false := fun j => Bool.eq_false_iff.mpr fun hj => haccepted (wroteBy_served.mp hj).2
    rw [writesBy_of_unwrote hwrote, lastWritten_snoc, publish_of_not_writes]
    · exact contended.sum
    · rintro ⟨v, hwrite⟩
      obtain ⟨_, n, hv⟩ := write_served hwrite
      exact haccepted ⟨_, n, hv⟩

/-- A put is accepted only of a key that has a value. -/
theorem Contended.written_served (hwho : r.who = .client i)
    (hdone : 0 < writesBy (es ++ [.served r (s.cluster.keeper.store.handle present r).2]) j) :
    ((s.cluster.keeper.store.handle present r).1.value s.key).isSome := by
  rw [writesBy_snoc] at hdone
  cases hwrote : (Event.served r (s.cluster.keeper.store.handle present r).2).wroteBy j with
  | false =>
    rw [hwrote] at hdone
    exact Store.value_stays s.key (contended.written j hdone)
  | true =>
    obtain ⟨_, u, n, hv⟩ := wroteBy_served.mp hwrote
    obtain ⟨_, _, _, _, _, _, hkey, _⟩ := contended.errand_of_request coherent lossless hr hwho
    simp [Store.value_handle, hv, hkey]

theorem Contended.only_served (hwho : r.who = .client i) {k : Key} (hk : k ≠ s.key) :
    (s.cluster.keeper.store.handle present r).1.value k = none := by
  obtain ⟨_, _, _, _, _, _, hkey, _⟩ := contended.errand_of_request coherent lossless hr hwho
  have hother : r.key ≠ k := by
    rintro rfl
    exact hk hkey
  have hbefore := contended.only k hk
  rw [Store.value_handle]
  split
  · rw [if_neg hother]
    exact hbefore
  · rw [if_neg hother]
    exact hbefore
  · exact hbefore

/-- A worker that asks for something has rounds to go. -/
theorem Contended.begun_of_request (hwho : r.who = .client i) : 0 < rounds ∧ deltas ≠ [] := by
  obtain ⟨w, m, a, hw, _, _, _, c, errand⟩ := contended.errand_of_request coherent lossless hr hwho
  constructor
  · have counts := contended.counts i w hw
    have hstage := errand.stage
    cases a with
    | get =>
      obtain ⟨_, _, hrounds⟩ := counts.of_getting hstage
      omega
    | put u =>
      obtain ⟨_, _, hrounds⟩ := counts.of_putting hstage
      omega
    | unsupported name => exact absurd hstage id
  · rintro rfl
    cases contended.delta_of_worker hw

end

/-- Each worker's client hears of the verdict what there is to hear. -/
theorem Contended.standing_served {w : Worker} {m : Member}
    (contended : Contended rounds deltas s (lastWritten es s.key) (writesBy es))
    (coherent : s.cluster.scene.Coherent es) (hr : r ∈ s.cluster.requests)
    (hplace : (s.cluster.keeper.store.handle present r).2 ≠ .parked (some (.client j)))
    (hw : s.workers[j]? = some w) (hm : s.cluster.members[j]? = some m) (hrun : m.running = true) :
    Standing s.cluster.calls s.key
      (lastWritten (es ++ [.served r (s.cluster.keeper.store.handle present r).2]) s.key) j w
      (m.hear ((s.cluster.keeper.store.handle present r).2.fateOf r.who (.client j)))
      (writesBy (es ++ [.served r (s.cluster.keeper.store.handle present r).2]) j) := by
  have hhand : s.cluster.scene.hand j = some ⟨m.cache, m.work⟩ := Cluster.hand_of_member hm hrun
  rw [writesBy_snoc]
  exact (contended.standing j w m hw hm).hears (coherent.heard hr hhand present) hplace
    fun hk hwrote => lastWritten_of_held coherent hr hhand hk hwrote

theorem contended_serve {cluster : Cluster} {e : Event}
    (contended : Contended rounds deltas s (lastWritten es s.key) (writesBy es))
    (coherent : s.cluster.scene.Coherent es) (lossless : s.cluster.scene.Lossless es)
    (attended : Cluster.Attended .clientsOnly s.cluster) (hlen : deltas.length ≤ 2)
    (h : s.cluster.serve = some (cluster, e)) :
    Contended rounds deltas { s with cluster } (lastWritten (es ++ [e]) s.key)
      (writesBy (es ++ [e])) := by
  obtain ⟨_, rest, ⟨r, hentries, hcluster, rfl⟩ | ⟨c, hentries, _, _⟩⟩ := Cluster.serve_cases h
  · obtain ⟨i, hwho⟩ := contended.commands (.request r) (by simp [hentries])
    have hr : r ∈ s.cluster.requests := by
      simp [Cluster.requests, hentries, Command.request?]
    have hinbox : cluster.keeper.inbox.entries = rest := by
      rw [hcluster, Cluster.keeper_tell]
      rfl
    have hstore : cluster.keeper.store =
        (s.cluster.keeper.store.handle s.cluster.isPresent r).1 := by
      rw [hcluster, Cluster.keeper_tell]
      rfl
    have hcalls : ∀ c : Nat, cluster.calls[c]? = s.cluster.calls[c]? := by
      intro c
      have hunheard : ((s.cluster.keeper.store.handle s.cluster.isPresent r).2.fates r.who).lookup
          (.caller c) = none := lossless.unheard_of_caller hwho s.cluster.isPresent c
      rw [hcluster, Cluster.calls_tell, hunheard]
      simp [Call.hear]
    refine ⟨contended.team, ?_, contended.counts, ?_,
      contended.sum_served coherent lossless hr hwho, ?_, ?_, ?_, ?_, ?_⟩
    · rw [hcluster, Cluster.length_members_tell]
      exact contended.members
    · intro j w m' hw hm'
      rw [hcluster, Cluster.members_tell] at hm'
      obtain ⟨m, hm, rfl⟩ := Option.map_eq_some_iff.mp hm'
      refine (contended.standing_served coherent hr
        (contended.nobody_displaced coherent lossless hr hlen hwho j) hw hm
        ((attended.orderly j m hm).2 id).2).frame fun c a status hc => ?_
      rw [← hc]
      exact hcalls c
    · intro command hcommand
      rw [hinbox] at hcommand
      exact contended.commands command (by simp [hentries, hcommand])
    · intro k hk
      rw [hstore]
      exact contended.only_served coherent lossless hr hwho hk
    · exact fun _ => contended.begun_of_request coherent lossless hr hwho
    · intro j hdone
      rw [hstore]
      exact contended.written_served coherent lossless hr hwho hdone
    · intro id c hc
      rw [hcalls] at hc
      exact contended.calls id c hc
  · obtain ⟨i, hsender⟩ := contended.commands (.snapshot c) (by simp [hentries])
    cases hsender

end Contention

end Custody
