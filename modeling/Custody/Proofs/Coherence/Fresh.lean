import Custody.Proofs.Coherence.Exclusive

/-!
# No update is lost

When only clients write, the store accepts a write only from a client to which it granted the key
before, and in between nobody else's write comes: what the client got of the key all that time is
what its write replaces. And no get is ever answered with a value that is not the last one written.
-/

namespace Custody

/-- An accepted write, seen from the events before it: client `i` was granted the key, then sent
its put, and all the while it was told the value that stood in the store until now. -/
structure Founded (es : List Event) (i : Nat) (k : Key) (v : Value) (early late : List Event)
    (grant : Event) : Prop where
  split : es = early ++ grant :: late
  granted : ∃ u, grant.grant? = some ⟨k, .client i, u⟩
  asked : ∃ c, .asked i ⟨c, .put v, k⟩ ∈ late
  unwritten : ∀ e ∈ late, ¬ e.Writes k
  read : ∀ job r, .answered i job r ∈ late → job.action = .get → job.key = k → r.ok = true →
    r.value = lastWritten es k

variable {es : List Event} {i : Nat} {k : Key} {v : Value}

theorem Pledged.founded (h : Pledged es k i v) (fresh : Fresh es) :
    ∃ early grant late, Founded es i k v early late grant := by
  obtain ⟨past, c, after, rfl, hcustody, hafter⟩ := h
  obtain ⟨early, grant, held, who, u, rfl, hgrant, hwho, hheld⟩ := custody_eq_some hcustody
  obtain rfl : who = .client i := by
    cases who with
    | client j => rw [Custodian.client.inj hwho]
    | caller c => cases hwho
  have hspares : ∀ e ∈ held ++ .asked i ⟨c, .put v, k⟩ :: after, e.Spares k := by
    intro e he
    rcases List.mem_append.mp he with he | he
    · exact hheld e he
    · rcases List.mem_cons.mp he with rfl | he
      · exact spares_asked i _ k
      · exact hafter e he
  refine ⟨early, grant, _, by simp, ⟨u, hgrant⟩, ⟨c, by simp⟩, fun e he => (hspares e he).2, ?_⟩
  intro job r he hget hkey hok
  obtain ⟨before, rest, hsplit⟩ := List.append_of_mem he
  have hes : (early ++ grant :: held) ++ .asked i ⟨c, .put v, k⟩ :: after =
      (early ++ grant :: before) ++ .answered i job r :: rest := by
    rw [List.append_assoc, List.cons_append, hsplit]
    simp
  rw [fresh _ _ _ _ _ hes hget hok, hkey, hes]
  refine (lastWritten_append_of_not_writes fun e he => (hspares e ?_).2).symm
  rw [hsplit]
  exact List.mem_append_right _ he

namespace Scene

variable {R : Rules} {a b : Scene}

theorem Coherent.founded {r : Request Requester} {n : Handover Requester}
    (coherent : a.Coherent es) (hstep : Step R a [.served r (.accepted v n)] b) :
    ∃ i early grant late, r.who = .client i ∧ Founded es i r.key v early late grant ∧
      a.store.value r.key = some (lastWritten es r.key) := by
  obtain ⟨present, rest, hqueue, hv⟩ := hstep.served_cases
  obtain ⟨hop, hvalue, _⟩ := Store.op_of_accepted hv
  obtain ⟨hr, _⟩ := mem_queue hqueue
  cases hwho : r.who with
  | client i =>
    obtain ⟨early, grant, late, hfounded⟩ :=
      (coherent.pledged r hr i v hwho hop).founded coherent.fresh
    refine ⟨i, early, grant, late, rfl, hfounded, ?_⟩
    obtain ⟨u, hu⟩ := Option.isSome_iff_exists.mp hvalue
    rw [← coherent.value, hu]
    rfl
  | caller c => exact absurd hop (coherent.outside r hr c v hwho)

theorem Coherent.answer_fresh {job : Job} {r : ClientReply} (coherent : a.Coherent es)
    (hstep : Step R a [.answered i job r] b) (hget : job.action = .get) (hok : r.ok = true) :
    r.value = lastWritten es job.key := by
  obtain ⟨h, cache, hi, hidle, hstart⟩ | ⟨h, slot, answer, cache, hi, hwork, hanswer, hfinish⟩ :=
    hstep.answered_cases
  · exact coherent.shown i h _ _ hi ((Hand.settles hidle hstart).2 hget hok)
  · exact coherent.shown i h _ _ hi (Hand.finishes_get hwork hanswer hfinish hget hok)

end Scene

namespace Cluster

variable {R : Rules} {setup : Setup} {labels : List Label} {s t : Cluster} {m : Move} {e : Event}

/-- A move that concerns the store's tables or a client's cache is a step of a coherent scene. -/
theorem coherent_fire (hwrites : ∀ v, ¬ R.asks (.write v)) (allowed : ∀ l ∈ labels, R.Allow l)
    (h : (start setup).run labels = some (s, es)) (hfire : s.fire m = some (t, e))
    (hmain : ¬ e.Aside) : s.scene.Coherent es ∧ Scene.Step R s.scene [e] t.scene := by
  have attended := attended_run allowed (attended_start setup) h
  have hrun : t.keeper.running = true := by
    by_contra hstopped
    exact hmain (aside_of_stopped attended hfire (by simpa using hstopped))
  obtain ⟨hbefore, hstep⟩ := scene_fire attended hfire hrun
  exact ⟨coherent_run hwrites allowed h hbefore, hstep⟩

/-- After any run, whatever move comes next. -/
theorem no_lost_update_no_stale_get
    (allowed : ∀ l ∈ labels, (Rules.readOnly True True).Allow l)
    (h : (start setup).run labels = some (s, es)) (hfire : s.fire m = some (t, e)) :
    (∀ r v n, e = .served r (.accepted v n) → ∃ i early grant late, r.who = .client i ∧
      Founded es i r.key v early late grant ∧
      s.keeper.store.value r.key = some (lastWritten es r.key)) ∧
    ∀ i job r, e = .answered i job r → job.action = .get → r.ok = true →
      r.value = lastWritten es job.key := by
  have hwrites : ∀ v, ¬ (Rules.readOnly True True).asks (.write v) := fun v hasks => hasks v rfl
  constructor
  · rintro r v n rfl
    obtain ⟨coherent, hstep⟩ := coherent_fire hwrites allowed h hfire id
    exact coherent.founded hstep
  · rintro i job r rfl hget hok
    obtain ⟨coherent, hstep⟩ := coherent_fire hwrites allowed h hfire id
    exact coherent.answer_fresh hstep hget hok

theorem no_lost_update_at_handover :
    ∃ s es t, (start ⟨[⟨"a", 1⟩, ⟨"b", 1⟩], 1⟩).run puttingLabels = some (s, es) ∧
      s.fire .serve = some (t, .served ⟨.write 7, "k", .client 0⟩
        (.accepted 7 (.passed (.client 1)))) ∧
      ∃ i early grant late, Requester.client 0 = .client i ∧
        Founded es i "k" 7 early late grant ∧
        s.keeper.store.value "k" = some (lastWritten es "k") := by
  have allowed : ∀ l ∈ puttingLabels, (Rules.readOnly True True).Allow l := by
    simp [puttingLabels, Rules.Allow]
  obtain ⟨s, es, t, h, hfire⟩ : ∃ s es t,
      (start ⟨[⟨"a", 1⟩, ⟨"b", 1⟩], 1⟩).run puttingLabels = some (s, es) ∧
        s.fire .serve = some (t, .served ⟨.write 7, "k", .client 0⟩
          (.accepted 7 (.passed (.client 1)))) := ⟨_, _, _, rfl, rfl⟩
  exact ⟨s, es, t, h, hfire, (no_lost_update_no_stale_get allowed h hfire).1 _ _ _ rfl⟩

end Cluster

end Custody
