import Custody.Proofs.Coherence.Invariant

/-!
# Nothing gets lost

As long as every client stays at work and nobody else reads, custody always lies with a client that
holds the key, and a client that has heard nothing is in the store's queue or parked behind a key
that is owned. So a key that is given back reaches the one who waits for it.
-/

namespace Custody

/-- Callers of the store ask for nothing that it does, and nothing is ever stopped. -/
def Rules.clientsOnly : Rules where
  asks op := ∃ name, op = .unsupported name
  stops := False
  closes := False

namespace Scene

structure Lossless (a : Scene) (es : List Event) : Prop where
  kept : ∀ k x, custody es k = some x → ∃ i h, x = .client i ∧ a.hand i = some h ∧ h.Holds k
  pending : ∀ i h act k, a.hand i = some h → h.Awaits act k →
    (∃ r ∈ a.queue, r.who = .client i) ∨ (act = .get ∧ a.store.waiter k = some (.client i))
  unspent : ∀ i h job, a.hand i = some h → h.work ≠ some ⟨job, .spent⟩
  waiting : ∀ k x, a.store.waiter k = some x →
    a.store.isOwned k = true ∧ ∃ i h, x = .client i ∧ a.hand i = some h
  staffed : ∀ r ∈ a.queue, ∀ i, r.who = .client i → ∃ h, a.hand i = some h
  idle : ∀ r ∈ a.queue, ∀ c, r.who = .caller c → ∃ name, r.op = .unsupported name

variable {a b : Scene} {es now : List Event} {present : Requester → Bool}
  {r : Request Requester} {rest : List (Request Requester)} {i : Nat} {k : Key} {v : Value}
  {h h' : Hand} {verdict : Verdict Requester}

theorem lossless_start (hand : Nat → Option Hand) (hidle : ∀ i h, hand i = some h → h.work = none) :
    Lossless ⟨{}, [], hand⟩ [] where
  kept := by simp
  pending := by
    rintro i h act k hi ⟨c, hwork⟩
    rw [hidle i h hi] at hwork
    cases hwork
  unspent := by
    intro i h job hi hwork
    rw [hidle i h hi] at hwork
    cases hwork
  waiting := by simp [Store.waiter]
  staffed := by simp
  idle := by simp

/-! ## The store decides -/

theorem Hears.promised (heard : Hears r verdict i h h')
    (hgrant : (Event.served r verdict).grant? = some ⟨k, .client i, v⟩) : h'.Promised k v := by
  obtain ⟨rfl, hverdict⟩ := grant_served hgrant
  cases heard with
  | kept _ hnone => exact absurd hgrant (hnone v)
  | granted c u _ hgrant' =>
    rw [hgrant] at hgrant'
    cases hgrant'
    exact ⟨c, rfl⟩
  | displaced c _ hparked =>
    rw [hparked] at hverdict
    rcases hverdict with ⟨hverdict, _⟩ | hverdict
    · cases hverdict
    · cases hverdict
  | released c u n hown hwork haccepted hother =>
    rw [haccepted] at hverdict
    rcases hverdict with ⟨hverdict, _⟩ | hverdict
    · cases hverdict
    · exact absurd (Verdict.accepted.inj hverdict).2 hother

/-- A client keeps what the request spares. -/
theorem Hears.holds (heard : Hears r verdict i h h') (hspares : (Event.served r verdict).Spares k)
    (hk : h.Holds k) : h'.Holds k := by
  -- a client that waits for the store holds no more than what it has cached
  have hcached : ∀ job, h.work = some ⟨job, .empty⟩ → ∃ v, h.cache[k]? = some v := by
    rintro job hwork
    rcases hk with ⟨hcached, _⟩ | ⟨v, c, hpromised⟩
    · exact hcached
    · rw [hwork] at hpromised
      cases hpromised
  cases heard with
  | kept => exact hk
  | granted c u hwork =>
    refine Or.inl ⟨hcached _ hwork, ?_⟩
    rintro ⟨c', v', u', hreleased⟩
    cases hreleased
  | displaced c hwork =>
    refine Or.inl ⟨hcached _ hwork, ?_⟩
    rintro ⟨c', v', u', hreleased⟩
    cases hreleased
  | released c u n _ hwork haccepted =>
    refine Or.inl ⟨hcached _ hwork, ?_⟩
    rintro ⟨c', v', u', hreleased⟩
    cases hreleased
    subst haccepted
    exact hspares.2 ⟨u, rfl⟩

theorem Hears.unspent (heard : Hears r verdict i h h')
    (hbefore : ∀ job, h.work ≠ some ⟨job, .spent⟩)
    (job : Job) : h'.work ≠ some ⟨job, .spent⟩ := by
  cases heard with
  | kept => exact hbefore job
  | granted => simp
  | displaced => simp
  | released => simp

/-- Only clients that are at work are granted anything. -/
theorem Lossless.granted_client (lossless : Lossless a es) (hr : r ∈ a.queue) {who : Requester}
    (hgrant : (Event.served r (a.store.handle present r).2).grant? = some ⟨k, who, v⟩) :
    ∃ i h, who = .client i ∧ a.hand i = some h := by
  obtain ⟨rfl, ⟨hv, rfl⟩ | hv⟩ := grant_served hgrant
  · cases hwho : r.who with
    | client i =>
      obtain ⟨h, hi⟩ := lossless.staffed r hr i hwho
      exact ⟨i, h, rfl, hi⟩
    | caller c =>
      obtain ⟨name, hop⟩ := lossless.idle r hr c hwho
      rw [(Store.op_of_granted hv).1] at hop
      cases hop
  · obtain ⟨_, i, h, rfl, hi⟩ := lossless.waiting r.key who (Store.waiter_of_accepted hv)
    exact ⟨i, h, rfl, hi⟩

/-- A client that waits afterwards has heard nothing. -/
theorem awaits_of_hear {f : Option Fate} {act : Action} (h' : (h.hear f).Awaits act k) :
    h.Awaits act k ∧ f = none := by
  cases f with
  | none => exact ⟨by rwa [Hand.hear_none] at h', rfl⟩
  | some f =>
    obtain ⟨c, hwork⟩ := h'
    obtain ⟨⟨job, slot⟩, _, hheard⟩ := Option.map_eq_some_iff.mp hwork
    cases slot <;> cases f <;> cases hheard

theorem Routed.parked_of_unheard (routed : Routed a) (hr : r ∈ a.queue) (hwho : r.who = .client i)
    (hi : a.hand i = some h) {act : Action} (hawaits : h.Awaits act k)
    (hunheard : (a.store.handle present r).2.fateOf r.who (.client i) = none) :
    act = .get ∧ r.key = k ∧ ∃ d, (a.store.handle present r).2 = .parked d := by
  obtain ⟨d, hparked⟩ := Store.parked_of_unheard (hwho.symm ▸ hunheard)
  obtain ⟨c, hwork⟩ := hawaits
  obtain ⟨c', hwork'⟩ := routed.awaits_read hr hwho hi (Store.op_of_parked hparked).1
  rw [hwork] at hwork'
  cases hwork'
  exact ⟨rfl, rfl, d, hparked⟩

theorem Lossless.kept_served (lossless : Lossless a es) (coherent : Coherent a es)
    (hr : r ∈ a.queue) {x : Custodian}
    (hx : custody (es ++ [.served r (a.store.handle present r).2]) k = some x) :
    ∃ i h', x = .client i ∧ (a.served present r rest).hand i = some h' ∧ h'.Holds k := by
  rcases custody_snoc_cases hx with ⟨hspares, hbefore⟩ | ⟨who, v, hgrant, rfl⟩
  · obtain ⟨i, h, rfl, hi, hk⟩ := lossless.kept k x hbefore
    have heard := coherent.heard hr hi present
    exact ⟨i, _, rfl, hand_served.mpr ⟨h, hi, rfl⟩, heard.holds hspares hk⟩
  · obtain ⟨i, h, rfl, hi⟩ := lossless.granted_client hr hgrant
    have heard := coherent.heard hr hi present
    exact ⟨i, _, rfl, hand_served.mpr ⟨h, hi, rfl⟩, Or.inr ⟨v, heard.promised hgrant⟩⟩

/-- A client that has still heard nothing is still in the queue or parked. -/
theorem Lossless.pending_served (lossless : Lossless a es) (coherent : Coherent a es)
    (hr : r ∈ a.queue) (hqueue : a.queue = r :: rest)
    (hpresent : ∀ i, present (.client i) = (a.hand i).isSome) {act : Action}
    (hi' : (a.served present r rest).hand i = some h') (hawaits : h'.Awaits act k) :
    (∃ q ∈ rest, q.who = .client i) ∨
      (act = .get ∧ (a.store.handle present r).1.waiter k = some (.client i)) := by
  obtain ⟨h, hi, rfl⟩ := hand_served.mp hi'
  obtain ⟨hbefore, hunheard⟩ := awaits_of_hear hawaits
  rcases lossless.pending i h act k hi hbefore with ⟨q, hq, hwho⟩ | ⟨rfl, hwaits⟩
  · rw [hqueue] at hq
    rcases List.mem_cons.mp hq with rfl | hq
    · obtain ⟨rfl, rfl, d, hparked⟩ := coherent.parked_of_unheard hr hwho hi hbefore hunheard
      exact Or.inr ⟨rfl, by simp [Store.waiter_handle, hparked, hwho]⟩
    · exact Or.inl ⟨q, hq, hwho⟩
  · refine Or.inr ⟨rfl, Store.waits_of_unheard hwaits ?_ hunheard⟩
    rw [hpresent, hi]
    rfl

theorem Lossless.waiting_served (lossless : Lossless a es) (hr : r ∈ a.queue) {x : Requester}
    (hx : (a.store.handle present r).1.waiter k = some x) :
    (a.store.handle present r).1.isOwned k = true ∧
      ∃ i h', x = .client i ∧ (a.served present r rest).hand i = some h' := by
  rcases Store.waiter_cases hx with ⟨hbefore, hsame⟩ | ⟨rfl, rfl, hread, hv⟩
  · obtain ⟨howned, i, h, rfl, hi⟩ := lossless.waiting k x hbefore
    have hkept := Store.isOwned_stays howned fun hkey v n => (hsame hkey none v n).2
    exact ⟨hkept, i, _, rfl, hand_served.mpr ⟨h, hi, rfl⟩⟩
  · have howned : (a.store.handle present r).1.isOwned r.key = true := by
      rw [Store.isOwned_handle, hv]
      exact (Store.op_of_parked hv).2.1
    refine ⟨howned, ?_⟩
    cases hwho : r.who with
    | client i =>
      obtain ⟨h, hi⟩ := lossless.staffed r hr i hwho
      exact ⟨i, _, rfl, hand_served.mpr ⟨h, hi, rfl⟩⟩
    | caller c =>
      obtain ⟨name, hop⟩ := lossless.idle r hr c hwho
      rw [hread] at hop
      cases hop

theorem lossless_served (coherent : Coherent a es) (lossless : Lossless a es)
    (hqueue : a.queue = r :: rest) (hpresent : ∀ i, present (.client i) = (a.hand i).isSome) :
    Lossless (a.served present r rest) (es ++ [.served r (a.store.handle present r).2]) := by
  obtain ⟨hr, hrest⟩ := mem_queue hqueue
  refine ⟨fun k x hx => lossless.kept_served coherent hr hx, ?_, ?_,
    fun k x hx => lossless.waiting_served hr hx, ?_, fun q hq => lossless.idle q (hrest q hq)⟩
  · exact fun i h' act k hi' hawaits =>
      lossless.pending_served coherent hr hqueue hpresent hi' hawaits
  · intro i h' job hi'
    obtain ⟨h, hi, rfl⟩ := hand_served.mp hi'
    exact (coherent.heard hr hi present).unspent (fun job => lossless.unspent i h job hi) job
  · intro q hq i hwho
    obtain ⟨h, hi⟩ := lossless.staffed q (hrest q hq) i hwho
    exact ⟨_, hand_served.mpr ⟨h, hi, rfl⟩⟩

/-- A parked client gives its place to another only while a third has the key. -/
theorem Lossless.third_of_displaced {j : Nat} (lossless : Lossless a es) (coherent : Coherent a es)
    (hr : r ∈ a.queue) (hwho : r.who = .client i)
    (hv : (a.store.handle present r).2 = .parked (some (.client j))) :
    ∃ l, l ≠ i ∧ l ≠ j ∧ i ≠ j ∧ ∀ x, x = i ∨ x = j ∨ x = l → ∃ h, a.hand x = some h := by
  obtain ⟨hread, howned, hwaits⟩ := Store.op_of_parked hv
  obtain ⟨hi, hhi⟩ := lossless.staffed r hr i hwho
  obtain ⟨_, _, hj, hx, hhj⟩ := lossless.waiting r.key _ hwaits.symm
  obtain rfl := Requester.client.inj hx
  rw [coherent.owned] at howned
  obtain ⟨x, hx⟩ := Option.isSome_iff_exists.mp howned
  obtain ⟨l, hl, rfl, hhl, hholds⟩ := lossless.kept r.key x hx
  refine ⟨l, ?_, ?_, ?_, ?_⟩
  · rintro rfl
    obtain rfl := Option.some.inj (hhi.symm.trans hhl)
    exact Hand.not_holds_of_awaits (coherent.sound l hi hhi)
      (coherent.awaits_read hr hwho hhi hread) hholds
  · rintro rfl
    obtain rfl := Option.some.inj (hhj.symm.trans hhl)
    exact Hand.not_holds_of_awaits (coherent.sound l hj hhj)
      (coherent.parked r.key l hj hwaits.symm hhj) hholds
  · rintro rfl
    exact coherent.apart r hr i r.key hwho hwaits.symm
  · rintro y (rfl | rfl | rfl)
    · exact ⟨hi, hhi⟩
    · exact ⟨hj, hhj⟩
    · exact ⟨hl, hhl⟩

/-- When only clients ask, only clients hear. -/
theorem Lossless.unheard_of_caller (lossless : Lossless a es) (hwho : r.who = .client i)
    (present : Requester → Bool) (c : Nat) :
    (a.store.handle present r).2.fateOf r.who (.caller c) = none := by
  have hwaiter : a.store.waiter r.key ≠ some (.caller c) := by
    intro hwaits
    obtain ⟨_, j, h, hx, _⟩ := lossless.waiting r.key _ hwaits
    cases hx
  rw [hwho]
  cases hv : (a.store.handle present r).2 with
  | granted v => rw [Verdict.fateOf_granted, if_neg (by simp)]
  | parked d => rw [Verdict.fateOf_parked, (Store.op_of_parked hv).2.2, if_neg hwaiter]
  | accepted v n =>
    rw [Verdict.fateOf_accepted, if_neg]
    rintro (hx | hnext)
    · cases hx
    · subst hnext
      exact hwaiter (Store.waiter_of_accepted hv)
  | refused => rw [Verdict.fateOf_refused, if_neg (by simp)]

/-! ## The other steps -/

theorem Lossless.log (lossless : Lossless a es) (hspares : ∀ e ∈ now, ∀ k, e.Spares k) :
    Lossless a (es ++ now) := by
  refine { lossless with kept := ?_ }
  intro k x hx
  rw [custody_append_of_spares fun e he => hspares e he k] at hx
  exact lossless.kept k x hx

theorem Lossless.sent (lossless : Lossless a es)
    (hclient : ∀ i, r.who = .client i → ∃ h, a.hand i = some h)
    (hcaller : ∀ c, r.who = .caller c → ∃ name, r.op = .unsupported name) :
    Lossless (a.sent r) es := by
  refine { lossless with pending := ?_, staffed := ?_, idle := ?_ }
  · intro i h act k hi hawaits
    rcases lossless.pending i h act k hi hawaits with ⟨q, hq, hwho⟩ | hwaits
    · exact Or.inl ⟨q, List.mem_append_left _ hq, hwho⟩
    · exact Or.inr hwaits
  · intro q hq
    rcases List.mem_append.mp hq with hq | hq
    · exact lossless.staffed q hq
    · rw [List.mem_singleton.mp hq]
      exact hclient
  · intro q hq
    rcases List.mem_append.mp hq with hq | hq
    · exact lossless.idle q hq
    · rw [List.mem_singleton.mp hq]
      exact hcaller

theorem Lossless.cleared (lossless : Lossless a es) (hrest : rest.Sublist a.queue)
    (hkeep : ∀ r ∈ a.queue, ∀ i, r.who = .client i → r ∈ rest) : Lossless (a.cleared rest) es := by
  refine { lossless with pending := ?_, staffed := ?_, idle := ?_ }
  · intro i h act k hi hawaits
    rcases lossless.pending i h act k hi hawaits with ⟨q, hq, hwho⟩ | hwaits
    · exact Or.inl ⟨q, hkeep q hq i hwho, hwho⟩
    · exact Or.inr hwaits
  · exact fun q hq => lossless.staffed q (hrest.subset hq)
  · exact fun q hq => lossless.idle q (hrest.subset hq)

/-- A client may change what it has in hand if it lets go of nothing that it holds. -/
theorem Lossless.handed (lossless : Lossless a es) (hi : a.hand i = some h)
    (hholds : ∀ k, h.Holds k → h'.Holds k) (hunspent : ∀ job, h'.work ≠ some ⟨job, .spent⟩)
    (hpending : ∀ act k, h'.Awaits act k → ∃ r ∈ a.queue, r.who = .client i) :
    Lossless (a.handed i (some h')) es := by
  have hsame : (a.handed i (some h')).hand i = some h' := by rw [hand_handed, if_pos rfl]
  have hother : ∀ j, j ≠ i → (a.handed i (some h')).hand j = a.hand j := fun j hji => by
    rw [hand_handed, if_neg hji]
  have hstaffed : ∀ j g, a.hand j = some g → ∃ g', (a.handed i (some h')).hand j = some g' := by
    intro j g hj
    by_cases hji : j = i
    · exact ⟨h', hji ▸ hsame⟩
    · exact ⟨g, (hother j hji).trans hj⟩
  refine { lossless with kept := ?_, pending := ?_, unspent := ?_, waiting := ?_, staffed := ?_ }
  · intro k x hx
    obtain ⟨j, g, rfl, hj, hk⟩ := lossless.kept k x hx
    by_cases hji : j = i
    · subst hji
      obtain rfl := Option.some.inj (hi.symm.trans hj)
      exact ⟨j, h', rfl, hsame, hholds k hk⟩
    · exact ⟨j, g, rfl, (hother j hji).trans hj, hk⟩
  · intro j g act k hj hawaits
    rcases handed_cases hj with ⟨rfl, hg⟩ | hj
    · obtain rfl := Option.some.inj hg
      exact Or.inl (hpending act k hawaits)
    · exact lossless.pending j g act k hj hawaits
  · intro j g job hj
    rcases handed_cases hj with ⟨rfl, hg⟩ | hj
    · obtain rfl := Option.some.inj hg
      exact hunspent job
    · exact lossless.unspent j g job hj
  · intro k x hx
    obtain ⟨howned, j, g, rfl, hj⟩ := lossless.waiting k x hx
    obtain ⟨g', hj'⟩ := hstaffed j g hj
    exact ⟨howned, j, g', rfl, hj'⟩
  · intro q hq j hwho
    obtain ⟨g, hj⟩ := lossless.staffed q hq j hwho
    exact hstaffed j g hj

theorem Lossless.answered {job : Job} {cache : Cache} {reply : ClientReply}
    (lossless : Lossless a es) (hi : a.hand i = some h)
    (hholds : ∀ k, h.Holds k → Hand.Holds ⟨cache, none⟩ k) :
    Lossless (a.handed i (some ⟨cache, none⟩)) (es ++ [.answered i job reply]) := by
  have hlog := lossless.log (spares_singleton (spares_answered i job reply))
  refine hlog.handed hi hholds (by simp) ?_
  rintro act k ⟨c, hwork⟩
  cases hwork

theorem lossless_ask (lossless : Lossless a es) {job : Job} {cache : Cache}
    (hi : a.hand i = some h) (hidle : h.work = none)
    (hstart : h.cache.start job.key job.action = (cache, none)) :
    Lossless ((a.handed i (some ⟨cache, some ⟨job, .empty⟩⟩)).sent
      ⟨job.action.operation, job.key, .client i⟩) (es ++ [.asked i job]) := by
  have hlog := lossless.log (spares_singleton (spares_asked i job))
  have hsent := hlog.sent (r := ⟨job.action.operation, job.key, .client i⟩)
    (fun j hj => ⟨h, Requester.client.inj hj ▸ hi⟩) (by simp)
  -- it is the same to send the request first
  exact hsent.handed hi (fun k hk => Hand.asks_holds hidle hstart hk) (by simp)
    fun act k hawaits => ⟨_, List.mem_append_right _ (List.mem_singleton.mpr rfl), rfl⟩

theorem lossless_step (coherent : Coherent a es) (lossless : Lossless a es)
    (hstep : Step .clientsOnly a now b) : Lossless b (es ++ now) := by
  cases hstep with
  | aside _ haside => exact lossless.log fun e he => (haside e he).spares
  | post r c hwho hop =>
    rw [List.append_nil]
    exact lossless.sent (by simp [hwho]) fun _ _ => hop
  | withdraw rest hrest hkeep =>
    rw [List.append_nil]
    exact lossless.cleared hrest hkeep
  | stop i rest _ hstops => exact absurd hstops id
  | serve present r rest hqueue hpresent =>
    exact lossless_served coherent lossless hqueue hpresent
  | ask i h job cache hi hidle hstart => exact lossless_ask lossless hi hidle hstart
  | settle i h job cache r hi hidle hstart =>
    obtain ⟨rfl, _⟩ := Hand.settles hidle hstart
    refine lossless.answered hi fun k hk => ?_
    exact (Hand.holds_of_idle rfl).mpr ((Hand.holds_of_idle hidle).mp hk)
  | finish i h job slot answer cache r hi hwork hanswer hfinish =>
    exact lossless.answered hi fun k hk => Hand.finishes_holds hwork hanswer hfinish hk

end Scene

end Custody
