import Custody.Proofs.Coherence.Routing

/-!
# Coherence

The store knows only that a key is owned; the history knows by whom. In a coherent scene the two
agree, whoever holds a key is its custodian and shows the value written last, and a client with a
write on its way to the store still has custody of the key. So nobody else can end that custody.
-/

namespace Custody

theorem Event.Aside.spares {e : Event} (h : e.Aside) (k : Key) : e.Spares k := by
  constructor
  · rintro ⟨who, v, hgrant⟩
    cases e with
    | served r v => exact h
    | _ => cases hgrant
  · rintro ⟨v, hwrite⟩
    cases e with
    | served r v => exact h
    | _ => cases hwrite

theorem Event.Aside.ne_answered {e : Event} (h : e.Aside) (i : Nat) (job : Job) (r : ClientReply) :
    e ≠ .answered i job r := by
  rintro rfl
  exact h

namespace Scene

structure Coherent (a : Scene) (es : List Event) : Prop extends Routed a where
  owned : ∀ k, a.store.isOwned k = (custody es k).isSome
  valued : ∀ k, a.store.isOwned k = true → (a.store.value k).isSome
  value : ∀ k, (a.store.value k).getD 0 = lastWritten es k
  held : ∀ i h k, a.hand i = some h → h.Holds k → custody es k = some (.client i)
  shown : ∀ i h k v, a.hand i = some h → h.Shows k v → v = lastWritten es k
  pledged : ∀ r ∈ a.queue, ∀ i v, r.who = .client i → r.op = .write v → Pledged es r.key i v
  /-- A caller of the store that was granted a key keeps it for good. -/
  lent : ∀ n e k c v, es[n]? = some e → e.grant? = some ⟨k, .caller c, v⟩ →
    custody es k = some (.outside n) ∧ v = lastWritten es k
  fresh : Fresh es

variable {R : Rules} {a b : Scene} {es now : List Event} {present : Requester → Bool}
  {r : Request Requester} {rest : List (Request Requester)} {i : Nat} {k : Key} {v : Value}

theorem coherent_start (hand : Nat → Option Hand)
    (hidle : ∀ i h, hand i = some h → h.cache = ∅ ∧ h.work = none) :
    Coherent ⟨{}, [], hand⟩ [] := by
  have hnothing : ∀ i h k v, hand i = some h → ¬ h.Shows k v ∧ ¬ h.Holds k := by
    intro i h k v hi
    obtain ⟨hcache, hwork⟩ := hidle i h hi
    rw [Hand.shows_of_idle hwork, Hand.holds_of_idle hwork, hcache]
    simp
  exact {
    sound := by
      intro i h hi w hw
      rw [(hidle i h hi).2] at hw
      cases hw
    asked := by simp
    parked := by simp [Store.waiter]
    single := List.Pairwise.nil
    apart := by simp
    outside := by simp
    owned := by simp [Store.isOwned]
    valued := by simp [Store.isOwned]
    value := by simp [Store.value]
    held := fun i h k hi hk => absurd hk (hnothing i h k 0 hi).2
    shown := fun i h k v hi hk => absurd hk (hnothing i h k v hi).1
    pledged := by simp
    lent := by simp
    fresh := fresh_nil }

theorem Coherent.isOwned (coherent : Coherent a es) {x : Custodian} (h : custody es k = some x) :
    a.store.isOwned k = true := by
  rw [coherent.owned, h]
  rfl

/-- No write that is on its way to the store is turned down. -/
theorem Coherent.accepts (coherent : Coherent a es) (hr : r ∈ a.queue) (hop : r.op = .write v) :
    (a.store.handle present r).2 ≠ .refused := by
  intro hv
  have hnone := (Store.op_of_refused hv).2 v hop
  cases hwho : r.who with
  | client i =>
    have hvalue := coherent.valued r.key
      (coherent.isOwned (coherent.pledged r hr i v hwho hop).custody)
    rw [hnone] at hvalue
    cases hvalue
  | caller c => exact coherent.outside r hr c v hwho hop

theorem Coherent.heard (coherent : Coherent a es) (hr : r ∈ a.queue) {h : Hand}
    (hi : a.hand i = some h) (present : Requester → Bool) :
    Hears r (a.store.handle present r).2 i h
      (h.hear ((a.store.handle present r).2.fateOf r.who (.client i))) :=
  coherent.hears hr hi fun _ hop => coherent.accepts hr hop

/-- A request touches only its own key, and only when nobody else has custody of it. -/
theorem Coherent.custody_of_touched (coherent : Coherent a es) (hr : r ∈ a.queue)
    (h : ¬ (Event.served r (a.store.handle present r).2).Spares k) :
    r.key = k ∧
      (custody es k = none ∨ ∃ i, r.who = .client i ∧ custody es k = some (.client i)) := by
  obtain ⟨rfl, ⟨u, hv⟩ | ⟨u, n, hv⟩⟩ := served_of_not_spares h
  · have hfree := (Store.op_of_granted hv).2.1
    rw [coherent.owned] at hfree
    exact ⟨rfl, Or.inl (Option.isNone_iff_eq_none.mp (by simpa using hfree))⟩
  · have hop := (Store.op_of_accepted hv).1
    cases hwho : r.who with
    | client i => exact ⟨rfl, Or.inr ⟨i, rfl, (coherent.pledged r hr i u hwho hop).custody⟩⟩
    | caller c => exact absurd hop (coherent.outside r hr c u hwho)

/-- Custody outlasts every request but the custodian's own. -/
theorem Coherent.spares (coherent : Coherent a es) (hr : r ∈ a.queue) {x : Custodian}
    (hx : custody es k = some x) (hother : ∀ i, r.who = .client i → x ≠ .client i) :
    (Event.served r (a.store.handle present r).2).Spares k := by
  by_contra htouched
  obtain ⟨_, hnone | ⟨i, hwho, hi⟩⟩ := coherent.custody_of_touched hr htouched
  · rw [hx] at hnone
    cases hnone
  · rw [hx] at hi
    exact hother i hwho (Option.some.inj hi)

theorem Coherent.spares_of_held (coherent : Coherent a es) (hr : r ∈ a.queue) {h : Hand}
    (hi : a.hand i = some h) (hk : h.Holds k)
    (hown : r.who = .client i → (Event.served r (a.store.handle present r).2).Spares k) :
    (Event.served r (a.store.handle present r).2).Spares k := by
  by_cases hwho : r.who = .client i
  · exact hown hwho
  · refine coherent.spares hr (coherent.held i h k hi hk) fun j hj hij => hwho ?_
    rw [hj, Custodian.client.inj hij]

/-- A grant gives out the value that the store has from then on. -/
theorem value_of_grant {g : Grant}
    (h : (Event.served r (a.store.handle present r).2).grant? = some g) :
    (a.store.handle present r).1.value g.key = some g.value := by
  obtain ⟨hkey, ⟨hv, _⟩ | hv⟩ := grant_served h
  · simp [Store.value_handle, hv, hkey]
  · simp [Store.value_handle, hv, hkey]

section

variable (coherent : Coherent a es) (hr : r ∈ a.queue)

include coherent

theorem Coherent.owned_served (k : Key) : (a.store.handle present r).1.isOwned k =
    (custody (es ++ [.served r (a.store.handle present r).2]) k).isSome := by
  rw [Store.isOwned_handle, custody_snoc]
  cases hv : (a.store.handle present r).2 with
  | granted u =>
    simp only [Event.pass, Event.grant?]
    split <;> simp [coherent.owned]
  | parked d => exact coherent.owned k
  | accepted u n =>
    cases n with
    | freed =>
      simp only [Event.pass, Event.grant?, Event.write?]
      split <;> simp [coherent.owned]
    | passed next =>
      simp only [Event.pass, Event.grant?]
      split <;> simp [coherent.owned]
    | vanished next =>
      simp only [Event.pass, Event.grant?, Event.write?]
      split <;> simp [coherent.owned]
  | refused => exact coherent.owned k

theorem Coherent.value_served (k : Key) : ((a.store.handle present r).1.value k).getD 0 =
    lastWritten (es ++ [.served r (a.store.handle present r).2]) k := by
  rw [Store.value_handle, lastWritten_snoc]
  cases hv : (a.store.handle present r).2 with
  | granted u =>
    simp only [Event.publish, Event.write?]
    split
    · rename_i hkey
      rw [(Store.op_of_granted hv).2.2, hkey]
      exact coherent.value k
    · exact coherent.value k
  | parked d => exact coherent.value k
  | accepted u n =>
    simp only [Event.publish, Event.write?]
    split
    · rfl
    · exact coherent.value k
  | refused => exact coherent.value k

/-- Whoever holds a key after the verdict has custody of it then. -/
theorem Coherent.held_served (hr : r ∈ a.queue) {h' : Hand}
    (hi' : (a.served present r rest).hand i = some h') (hk : h'.Holds k) :
    custody (es ++ [.served r (a.store.handle present r).2]) k = some (.client i) := by
  obtain ⟨h, hi, rfl⟩ := hand_served.mp hi'
  have heard := coherent.heard hr hi present
  obtain ⟨u, hgrant, _⟩ | hgone | ⟨⟨hholds, _⟩, hown⟩ := heard.about (coherent.sound i h hi) k
  · rw [custody_snoc, Event.pass, hgrant]
    simp [Requester.custodian]
  · exact absurd hk hgone
  · rw [custody_snoc, pass_of_spares (coherent.spares_of_held hr hi (hholds hk) hown)]
    exact coherent.held i h k hi (hholds hk)

/-- Whatever is shown after the verdict is the value written last. -/
theorem Coherent.shown_served (hr : r ∈ a.queue) {h' : Hand}
    (hi' : (a.served present r rest).hand i = some h') (hk : h'.Shows k v) :
    v = lastWritten (es ++ [.served r (a.store.handle present r).2]) k := by
  obtain ⟨h, hi, rfl⟩ := hand_served.mp hi'
  have heard := coherent.heard hr hi present
  obtain ⟨u, hgrant, hshown⟩ | hgone | ⟨⟨_, hshows⟩, hown⟩ :=
    heard.about (coherent.sound i h hi) k
  · obtain rfl := hshown v hk
    rw [← coherent.value_served, value_of_grant hgrant]
    rfl
  · exact absurd hk.holds hgone
  · have hspares := coherent.spares_of_held hr hi (hshows v hk).holds hown
    rw [lastWritten_snoc, publish_of_not_writes hspares.2]
    exact coherent.shown i h k v hi (hshows v hk)

/-- A pledge outlasts the requests of all others. -/
theorem Coherent.pledged_served (hr : r ∈ a.queue) {q : Request Requester} (hq : q ∈ a.queue)
    (hwho : q.who = .client i) (hop : q.op = .write v) (hother : r.who ≠ .client i) :
    Pledged (es ++ [.served r (a.store.handle present r).2]) q.key i v := by
  have hpledged := coherent.pledged q hq i v hwho hop
  refine hpledged.append fun e he => ?_
  rw [List.mem_singleton.mp he]
  refine coherent.spares hr hpledged.custody fun j hj hij => hother ?_
  rw [hj, Custodian.client.inj hij]

theorem Coherent.lent_served (hr : r ∈ a.queue) {n c : Nat} {e : Event}
    (he : (es ++ [.served r (a.store.handle present r).2])[n]? = some e)
    (hgrant : e.grant? = some ⟨k, .caller c, v⟩) :
    custody (es ++ [.served r (a.store.handle present r).2]) k = some (.outside n) ∧
      v = lastWritten (es ++ [.served r (a.store.handle present r).2]) k := by
  rcases entry_snoc he with he | ⟨rfl, rfl⟩
  · obtain ⟨hcustody, hvalue⟩ := coherent.lent n e k c v he hgrant
    have hspares : (Event.served r (a.store.handle present r).2).Spares k :=
      coherent.spares hr hcustody (by simp)
    rw [custody_snoc, lastWritten_snoc, pass_of_spares hspares, publish_of_not_writes hspares.2]
    exact ⟨hcustody, hvalue⟩
  · constructor
    · rw [custody_snoc, Event.pass, hgrant]
      simp [Requester.custodian]
    · have hvalue := value_of_grant hgrant
      rw [← coherent.value_served]
      simp only at hvalue
      rw [hvalue]
      rfl

end

theorem coherent_served (coherent : Coherent a es) (hqueue : a.queue = r :: rest) :
    Coherent (a.served present r rest) (es ++ [.served r (a.store.handle present r).2]) := by
  obtain ⟨hr, hrest⟩ := mem_queue hqueue
  have hfirst := (List.pairwise_cons.mp (hqueue ▸ coherent.single)).1
  exact {
    toRouted := routed_served coherent.toRouted hqueue fun u hop => coherent.accepts hr hop
    owned := coherent.owned_served
    valued := Store.valued_handle coherent.valued
    value := coherent.value_served
    held := fun i h' k hi' hk => coherent.held_served hr hi' hk
    shown := fun i h' k v hi' hk => coherent.shown_served hr hi' hk
    pledged := fun q hq i v hwho hop => coherent.pledged_served hr (hrest q hq) hwho hop
      fun hown => hfirst q hq i hown hwho
    lent := fun n e k c v he hgrant => coherent.lent_served hr he hgrant
    fresh := coherent.fresh.append (by simp) }

/-! ## The other steps -/

theorem Coherent.log (coherent : Coherent a es) (hspares : ∀ e ∈ now, ∀ k, e.Spares k)
    (hfresh : Fresh (es ++ now)) : Coherent a (es ++ now) := by
  have hcustody : ∀ k, custody (es ++ now) k = custody es k := fun k =>
    custody_append_of_spares fun e he => hspares e he k
  have hlast : ∀ k, lastWritten (es ++ now) k = lastWritten es k := fun k =>
    lastWritten_append_of_not_writes fun e he => (hspares e he k).2
  refine { toRouted := coherent.toRouted, fresh := hfresh, owned := ?_, valued := coherent.valued,
           value := ?_, held := ?_, shown := ?_, pledged := ?_, lent := ?_ }
  · intro k
    rw [hcustody]
    exact coherent.owned k
  · intro k
    rw [hlast]
    exact coherent.value k
  · intro i h k hi hk
    rw [hcustody]
    exact coherent.held i h k hi hk
  · intro i h k v hi hk
    rw [hlast]
    exact coherent.shown i h k v hi hk
  · intro r hr i v hwho hop
    exact (coherent.pledged r hr i v hwho hop).append fun e he => hspares e he r.key
  · intro n e k c v he hgrant
    rcases entry_append he with he | ⟨_, he⟩
    · rw [hcustody, hlast]
      exact coherent.lent n e k c v he hgrant
    · exact absurd ⟨_, v, hgrant⟩ (hspares e (List.mem_of_getElem? he) k).1

theorem Coherent.log_aside (coherent : Coherent a es) (haside : ∀ e ∈ now, e.Aside) :
    Coherent a (es ++ now) :=
  coherent.log (fun e he => (haside e he).spares)
    (coherent.fresh.append fun e he => (haside e he).ne_answered)

theorem Coherent.handed (coherent : Coherent a es) {x : Option Hand}
    (routed : Routed (a.handed i x))
    (hx : ∀ h', x = some h' → ∃ h, a.hand i = some h ∧ h'.Within h) :
    Coherent (a.handed i x) es := by
  -- what a client has in hand goes back to what it had before
  have hwithin : ∀ j h', (a.handed i x).hand j = some h' →
      ∃ h, a.hand j = some h ∧ h'.Within h := by
    intro j h' hj
    rcases handed_cases hj with ⟨rfl, hxh⟩ | hj
    · exact hx h' hxh
    · exact ⟨h', hj, fun k hk => hk, fun k v hk => hk⟩
  refine { toRouted := routed, owned := coherent.owned, valued := coherent.valued,
           value := coherent.value, held := ?_, shown := ?_, pledged := coherent.pledged,
           lent := coherent.lent, fresh := coherent.fresh }
  · intro j h' k hj hk
    obtain ⟨h, hj, within⟩ := hwithin j h' hj
    exact coherent.held j h k hj (within.holds k hk)
  · intro j h' k v hj hk
    obtain ⟨h, hj, within⟩ := hwithin j h' hj
    exact coherent.shown j h k v hj (within.shows k v hk)

theorem Coherent.cleared (coherent : Coherent a es) (hrest : rest.Sublist a.queue) :
    Coherent (a.cleared rest) es where
  toRouted := coherent.toRouted.cleared hrest
  owned := coherent.owned
  valued := coherent.valued
  value := coherent.value
  held := coherent.held
  shown := coherent.shown
  pledged r hr := coherent.pledged r (hrest.subset hr)
  lent := coherent.lent
  fresh := coherent.fresh

theorem Coherent.sent (coherent : Coherent a es) (routed : Routed (a.sent r))
    (hpledged : ∀ i v, r.who = .client i → r.op = .write v → Pledged es r.key i v) :
    Coherent (a.sent r) es where
  toRouted := routed
  owned := coherent.owned
  valued := coherent.valued
  value := coherent.value
  held := coherent.held
  shown := coherent.shown
  pledged q hq := by
    rcases List.mem_append.mp hq with hq | hq
    · exact coherent.pledged q hq
    · rw [List.mem_singleton.mp hq]
      exact hpledged
  lent := coherent.lent
  fresh := coherent.fresh

/-- A client asks for a write only of a key that it holds, so the write is pledged. -/
theorem coherent_ask (coherent : Coherent a es) {h : Hand} {job : Job} {cache : Cache}
    (hi : a.hand i = some h) (hidle : h.work = none)
    (hstart : h.cache.start job.key job.action = (cache, none)) :
    Coherent ((a.handed i (some ⟨cache, some ⟨job, .empty⟩⟩)).sent
      ⟨job.action.operation, job.key, .client i⟩) (es ++ [.asked i job]) := by
  have hlog : Coherent a (es ++ [.asked i job]) :=
    coherent.log (spares_singleton (spares_asked i job)) (coherent.fresh.append (by simp))
  obtain ⟨hsound, hwithin⟩ := Hand.asks hidle hstart
  have hfree := coherent.free_of_idle hi hidle
  have hhanded := hlog.handed (i := i) (x := some ⟨cache, some ⟨job, .empty⟩⟩)
    (coherent.toRouted.handed fun h' hx => Option.some.inj hx ▸ ⟨hsound, hfree⟩)
    fun h' hx => ⟨h, hi, Option.some.inj hx ▸ hwithin⟩
  refine hhanded.sent (routed_ask coherent.toRouted hi hidle hstart) ?_
  rintro j v hj hop
  obtain rfl := Requester.client.inj hj
  obtain ⟨c, act, key⟩ := job
  obtain ⟨rfl, _⟩ | ⟨u, rfl, hcached, _⟩ := Cache.start_asks hstart
  · cases hop
  · obtain rfl := Operation.write.inj hop
    have hholds := (Hand.holds_of_idle (k := key) hidle).mpr (Option.isSome_iff_exists.mp hcached)
    exact ⟨es, c, [], rfl, coherent.held i h key hi hholds, by simp⟩

/-- A client that settles a job holds no more than before, and what it tells of a key is fresh. -/
theorem coherent_answered (coherent : Coherent a es) {h : Hand} {job : Job} {cache : Cache}
    {r : ClientReply} (hi : a.hand i = some h) (hfree : a.Free i)
    (hwithin : Hand.Within ⟨cache, none⟩ h)
    (hshown : job.action = .get → r.ok = true → h.Shows job.key r.value) :
    Coherent (a.handed i (some ⟨cache, none⟩)) (es ++ [.answered i job r]) := by
  have hlog : Coherent a (es ++ [.answered i job r]) := by
    refine coherent.log (spares_singleton (spares_answered i job r)) (coherent.fresh.snoc ?_)
    intro i' job' r' he hget hok
    obtain ⟨rfl, rfl, rfl⟩ := Event.answered.inj he
    exact coherent.shown i h job.key r.value hi (hshown hget hok)
  refine hlog.handed (coherent.toRouted.handed fun h' hx => ?_) fun h' hx => ?_
  · exact Option.some.inj hx ▸ ⟨Hand.sound_of_idle cache, hfree⟩
  · exact ⟨h, hi, Option.some.inj hx ▸ hwithin⟩

/-- Without writes from outside, every step keeps a scene coherent. -/
theorem coherent_step (hwrites : ∀ v, ¬ R.asks (.write v)) (coherent : Coherent a es)
    (hstep : Step R a now b) : Coherent b (es ++ now) := by
  have routed : Routed b := routed_step hwrites coherent.toRouted
    (fun present r hr u hop => coherent.accepts hr hop) hstep
  cases hstep with
  | aside _ haside => exact coherent.log_aside haside
  | post r c hwho hop =>
    rw [List.append_nil]
    exact coherent.sent routed (by simp [hwho])
  | withdraw rest hrest =>
    rw [List.append_nil]
    exact coherent.cleared hrest
  | stop i rest _ _ hrest haside =>
    exact ((coherent.cleared hrest).log_aside haside).handed routed (by simp)
  | serve present r rest hqueue => exact coherent_served coherent hqueue
  | ask i h job cache hi hidle hstart => exact coherent_ask coherent hi hidle hstart
  | settle i h job cache r hi hidle hstart =>
    obtain ⟨rfl, hshown⟩ := Hand.settles hidle hstart
    refine coherent_answered coherent hi (coherent.free_of_idle hi hidle) ?_ hshown
    exact Hand.within_of_idle fun k v => (Hand.shows_of_idle hidle).mpr
  | finish i h job slot answer cache r hi hwork hanswer hfinish =>
    have hfree := coherent.free_of_answer hi hwork hanswer
    exact coherent_answered coherent hi hfree
      (Hand.finishes (coherent.sound i h hi) hwork hanswer hfinish)
      (Hand.finishes_get hwork hanswer hfinish)

end Scene

end Custody
