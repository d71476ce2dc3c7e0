import Custody.Proofs.Coherence.Hand
import Custody.Proofs.History

/-!
# Who waits for what

A client has one request open at most. While it is open the client has the job for it in hand and
has heard nothing, and the request is in the store's queue or parked. So whatever the store
decides, the clients that hear of it are those that wait for it, and each hears one of four things.
-/

namespace Custody

namespace Verdict

variable {who x : Requester} {v : Value}

theorem lookup_fate (y : Requester) (f : Fate) (rest : List (Requester × Fate)) :
    ((y, f) :: rest).lookup x = if x = y then some f else rest.lookup x := by
  by_cases hx : x = y
  · subst hx
    simp
  · have hne : (x == y) = false := beq_false_of_ne hx
    simp [List.lookup_cons, hne, hx]

theorem fateOf_granted : (granted v).fateOf who x =
    if x = who then some (.answered (.granted v)) else none := by
  rw [fateOf, fates, lookup_fate, List.lookup_nil]

theorem fateOf_parked {d : Option Requester} : (parked d).fateOf who x =
    if d = some x then some .discarded else none := by
  cases d with
  | none => rfl
  | some d => simp [fateOf, fates, lookup_fate, eq_comm]

theorem fateOf_accepted {n : Handover Requester} : (accepted v n).fateOf who x =
    if x = who ∨ n = .passed x then some (.answered (.granted v)) else none := by
  by_cases hx : x = who
  · cases n <;> simp [fateOf, fates, hx]
  · cases n with
    | freed => simp [fateOf, fates, lookup_fate, hx]
    | vanished next => simp [fateOf, fates, lookup_fate, hx]
    | passed next => simp [fateOf, fates, lookup_fate, hx, eq_comm]

theorem fateOf_refused : (refused : Verdict Requester).fateOf who x =
    if x = who then some (.answered .rejected) else none := by
  rw [fateOf, fates, lookup_fate, List.lookup_nil]

end Verdict

/-! ## Who hears of a request -/

namespace Store

variable {s : Store Requester} {present : Requester → Bool} {r : Request Requester}
  {x : Requester} {k : Key}

/-- No reply will come to the waiter whose place a read takes, and to nobody else. -/
theorem discarded_iff : (s.handle present r).2.fateOf r.who x = some .discarded ↔
    (s.handle present r).2 = .parked (some x) := by
  cases hv : (s.handle present r).2 with
  | granted v => simp [Verdict.fateOf_granted]
  | parked y => simp [Verdict.fateOf_parked]
  | accepted v n => simp [Verdict.fateOf_accepted]
  | refused => simp [Verdict.fateOf_refused]

/-- Nobody hears who neither made the request nor waits for its key. -/
theorem unheard_of_unconcerned (hwho : r.who ≠ x) (hwaiter : s.waiter r.key ≠ some x) :
    (s.handle present r).2.fateOf r.who x = none := by
  have hne : x ≠ r.who := Ne.symm hwho
  cases hv : (s.handle present r).2 with
  | granted v => rw [Verdict.fateOf_granted, if_neg hne]
  | parked y => rw [Verdict.fateOf_parked, (op_of_parked hv).2.2, if_neg hwaiter]
  | accepted v n =>
    have hnext : n ≠ .passed x := by
      rintro rfl
      exact hwaiter (waiter_of_accepted hv)
    rw [Verdict.fateOf_accepted, if_neg (by simp [hne, hnext])]
  | refused => rw [Verdict.fateOf_refused, if_neg hne]

/-- Somebody else hears nothing of a request that leaves the waiter of its key alone. -/
theorem unheard_of_kept (hwho : r.who ≠ x) (honly : s.waiter r.key = some x → r.key = k)
    (hsame : r.key = k → ∀ d v n, (s.handle present r).2 ≠ .parked d ∧
      (s.handle present r).2 ≠ .accepted v n) :
    (s.handle present r).2.fateOf r.who x = none := by
  by_cases hwaits : s.waiter r.key = some x
  · have hne : x ≠ r.who := Ne.symm hwho
    have hkey := honly hwaits
    cases hv : (s.handle present r).2 with
    | granted v => rw [Verdict.fateOf_granted, if_neg hne]
    | parked y => exact absurd hv (hsame hkey y 0 .freed).1
    | accepted v n => exact absurd hv (hsame hkey none v n).2
    | refused => rw [Verdict.fateOf_refused, if_neg hne]
  · exact unheard_of_unconcerned hwho hwaits

/-- A request of which its own requester hears nothing has been parked. -/
theorem parked_of_unheard (hunheard : (s.handle present r).2.fateOf r.who r.who = none) :
    ∃ d, (s.handle present r).2 = .parked d := by
  cases hv : (s.handle present r).2 with
  | granted v => simp [hv, Verdict.fateOf_granted] at hunheard
  | parked d => exact ⟨d, rfl⟩
  | accepted v n => simp [hv, Verdict.fateOf_accepted] at hunheard
  | refused => simp [hv, Verdict.fateOf_refused] at hunheard

/-- Whoever leaves the waiter's place and can be reached hears of it. -/
theorem waits_of_unheard (hwaits : s.waiter k = some x) (hpresent : present x = true)
    (hunheard : (s.handle present r).2.fateOf r.who x = none) :
    (s.handle present r).1.waiter k = some x := by
  rw [waiter_handle]
  cases hv : (s.handle present r).2 with
  | granted v => exact hwaits
  | parked d =>
    simp only
    split
    · rename_i hkey
      subst hkey
      simp [hv, Verdict.fateOf_parked, (op_of_parked hv).2.2, hwaits] at hunheard
    · exact hwaits
  | accepted v n =>
    simp only
    split
    · rename_i hkey
      subst hkey
      have hnext : n = .passed x := by
        rw [(op_of_accepted hv).2.2, handover, hwaits]
        simp [hpresent]
      simp [hv, Verdict.fateOf_accepted, hnext] at hunheard
    · exact hwaits
  | refused => exact hwaits

end Store

namespace Scene

structure Routed (a : Scene) : Prop where
  sound : ∀ i h, a.hand i = some h → h.Sound
  asked : ∀ r ∈ a.queue, ∀ i h, r.who = .client i → a.hand i = some h →
    ∃ act, h.Awaits act r.key ∧ act.operation = r.op
  parked : ∀ k i h, a.store.waiter k = some (.client i) → a.hand i = some h → h.Awaits .get k
  single : a.queue.Pairwise fun r q => ∀ i, r.who = .client i → q.who ≠ .client i
  apart : ∀ r ∈ a.queue, ∀ i k, r.who = .client i → a.store.waiter k ≠ some (.client i)
  outside : ∀ r ∈ a.queue, ∀ c v, r.who = .caller c → r.op ≠ .write v

/-- Client `i` has no request open. -/
structure Free (a : Scene) (i : Nat) : Prop where
  unasked : ∀ r ∈ a.queue, r.who ≠ .client i
  unparked : ∀ k, a.store.waiter k ≠ some (.client i)

/-- What client `i`, with `h` in hand, has in hand after the verdict on `r`. -/
inductive Hears (r : Request Requester) (v : Verdict Requester) (i : Nat) (h : Hand) :
    Hand → Prop where
  | kept (hown : r.who = .client i → ∃ d, v = .parked d)
      (hgrant : ∀ u, (Event.served r v).grant? ≠ some ⟨r.key, .client i, u⟩) : Hears r v i h h
  | granted (c : Nat) (u : Value) (hwork : h.work = some ⟨⟨c, .get, r.key⟩, .empty⟩)
      (hgrant : (Event.served r v).grant? = some ⟨r.key, .client i, u⟩)
      (hother : ∀ w n, v = .accepted w n → r.who ≠ .client i) :
      Hears r v i h ⟨h.cache, some ⟨⟨c, .get, r.key⟩, .full ⟨u, true⟩⟩⟩
  | displaced (c : Nat) (hwork : h.work = some ⟨⟨c, .get, r.key⟩, .empty⟩)
      (hparked : v = .parked (some (.client i))) (hother : r.who ≠ .client i) :
      Hears r v i h ⟨h.cache, some ⟨⟨c, .get, r.key⟩, .dropped⟩⟩
  | released (c : Nat) (u : Value) (n : Handover Requester) (hown : r.who = .client i)
      (hwork : h.work = some ⟨⟨c, .put u, r.key⟩, .empty⟩) (haccepted : v = .accepted u n)
      (hother : n ≠ .passed (.client i)) :
      Hears r v i h ⟨h.cache, some ⟨⟨c, .put u, r.key⟩, .full ⟨u, true⟩⟩⟩

variable {R : Rules} {a b : Scene} {present : Requester → Bool} {r : Request Requester}
  {rest : List (Request Requester)} {i : Nat} {h : Hand}

theorem Routed.awaits_read (routed : Routed a) (hr : r ∈ a.queue) (hwho : r.who = .client i)
    (hi : a.hand i = some h) (hop : r.op = .read) : h.Awaits .get r.key := by
  obtain ⟨act, hawaits, hact⟩ := routed.asked r hr i h hwho hi
  rw [hop] at hact
  cases act with
  | get => exact hawaits
  | put v => cases hact
  | unsupported name => cases hact

theorem Routed.awaits_write {v : Value} (routed : Routed a) (hr : r ∈ a.queue)
    (hwho : r.who = .client i) (hi : a.hand i = some h) (hop : r.op = .write v) :
    h.Awaits (.put v) r.key := by
  obtain ⟨act, hawaits, hact⟩ := routed.asked r hr i h hwho hi
  rw [hop] at hact
  cases act with
  | get => cases hact
  | put u =>
    obtain rfl := Operation.write.inj hact
    exact hawaits
  | unsupported name => cases hact

theorem Routed.not_unsupported {name : String} (routed : Routed a) (hr : r ∈ a.queue)
    (hwho : r.who = .client i) (hi : a.hand i = some h) : r.op ≠ .unsupported name := by
  intro hop
  obtain ⟨act, ⟨c, hwork⟩, hact⟩ := routed.asked r hr i h hwho hi
  rw [hop] at hact
  cases act with
  | get => cases hact
  | put u => cases hact
  | unsupported name' => exact routed.sound i h hi _ hwork

/-- A client that waits for nothing has no request open. -/
theorem Routed.free (routed : Routed a) (hi : a.hand i = some h)
    (hdone : ∀ act k, ¬ h.Awaits act k) : a.Free i where
  unasked r hr hwho := by
    obtain ⟨act, hawaits, _⟩ := routed.asked r hr i h hwho hi
    exact hdone act r.key hawaits
  unparked k hwaits := hdone .get k (routed.parked k i h hwaits hi)

theorem Routed.hears_granted {v : Value} (routed : Routed a) (hr : r ∈ a.queue)
    (hi : a.hand i = some h) (hv : (a.store.handle present r).2 = .granted v) :
    Hears r (.granted v) i h (h.hear (Verdict.fateOf (.granted v) r.who (.client i))) := by
  rw [Verdict.fateOf_granted]
  split
  · rename_i hwho
    obtain ⟨c, hwork⟩ := routed.awaits_read hr hwho.symm hi (Store.op_of_granted hv).1
    rw [Hand.hear_of_waiting hwork]
    exact .granted c v hwork (by rw [Event.grant?, hwho]) (by simp)
  · rename_i hwho
    rw [Hand.hear_none]
    refine .kept (fun hown => absurd hown.symm hwho) ?_
    intro u hgrant
    simp only [Event.grant?, Option.some.injEq, Grant.mk.injEq] at hgrant
    exact hwho hgrant.2.1.symm

theorem Routed.hears_parked {d : Option Requester} (routed : Routed a) (hr : r ∈ a.queue)
    (hi : a.hand i = some h) (hv : (a.store.handle present r).2 = .parked d) :
    Hears r (.parked d) i h (h.hear (Verdict.fateOf (.parked d) r.who (.client i))) := by
  obtain ⟨_, _, hd⟩ := Store.op_of_parked hv
  rw [Verdict.fateOf_parked]
  split
  · rename_i hx
    subst hx
    obtain ⟨c, hwork⟩ := routed.parked r.key i h hd.symm hi
    rw [Hand.hear_of_waiting hwork]
    exact .displaced c hwork rfl fun hown => routed.apart r hr i r.key hown hd.symm
  · rw [Hand.hear_none]
    exact .kept (fun _ => ⟨d, rfl⟩) (by simp [Event.grant?])

/-- Of an accepted write its own client hears, and the one that it hands the key to. -/
theorem Routed.hears_accepted {v : Value} {n : Handover Requester} (routed : Routed a)
    (hr : r ∈ a.queue) (hi : a.hand i = some h)
    (hv : (a.store.handle present r).2 = .accepted v n) :
    Hears r (.accepted v n) i h (h.hear (Verdict.fateOf (.accepted v n) r.who (.client i))) := by
  obtain ⟨hop, _, _⟩ := Store.op_of_accepted hv
  rw [Verdict.fateOf_accepted]
  by_cases hwho : r.who = .client i
  · obtain ⟨c, hwork⟩ := routed.awaits_write hr hwho hi hop
    rw [if_pos (Or.inl hwho.symm), Hand.hear_of_waiting hwork]
    refine .released c v n hwho hwork rfl ?_
    rintro rfl
    exact routed.apart r hr i r.key hwho (Store.waiter_of_accepted hv)
  · by_cases hnext : n = .passed (.client i)
    · subst hnext
      obtain ⟨c, hwork⟩ := routed.parked r.key i h (Store.waiter_of_accepted hv) hi
      rw [if_pos (Or.inr rfl), Hand.hear_of_waiting hwork]
      exact .granted c v hwork rfl fun _ _ _ => hwho
    · have hunheard : ¬ (.client i = r.who ∨ n = .passed (.client i)) := by
        rintro (hx | hx)
        · exact hwho hx.symm
        · exact hnext hx
      rw [if_neg hunheard, Hand.hear_none]
      refine .kept (fun hown => absurd hown hwho) ?_
      intro u hgrant
      cases n with
      | freed => cases hgrant
      | vanished next => cases hgrant
      | passed next =>
        simp only [Event.grant?, Option.some.injEq, Grant.mk.injEq] at hgrant
        exact hnext (congrArg _ hgrant.2.1)

theorem Routed.hears_refused (routed : Routed a) (hr : r ∈ a.queue) (hi : a.hand i = some h)
    (hv : (a.store.handle present r).2 = .refused) (haccepts : ∀ u, r.op ≠ .write u) :
    Hears r .refused i h (h.hear (Verdict.fateOf .refused r.who (.client i))) := by
  obtain ⟨hread, _⟩ := Store.op_of_refused hv
  have hother : .client i ≠ r.who := by
    intro hwho
    cases hop : r.op with
    | read => exact hread hop
    | write u => exact haccepts u hop
    | unsupported name => exact routed.not_unsupported hr hwho.symm hi hop
  rw [Verdict.fateOf_refused, if_neg hother, Hand.hear_none]
  exact .kept (fun hown => absurd hown.symm hother) (by simp [Event.grant?])

theorem Routed.hears (routed : Routed a) (hr : r ∈ a.queue) (hi : a.hand i = some h)
    (haccepts : ∀ u, r.op = .write u → (a.store.handle present r).2 ≠ .refused) :
    Hears r (a.store.handle present r).2 i h
      (h.hear ((a.store.handle present r).2.fateOf r.who (.client i))) := by
  cases hv : (a.store.handle present r).2 with
  | granted v => exact routed.hears_granted hr hi hv
  | parked d => exact routed.hears_parked hr hi hv
  | accepted v n => exact routed.hears_accepted hr hi hv
  | refused => exact routed.hears_refused hr hi hv fun u hop => haccepts u hop hv

theorem hear_of_unconcerned (hwho : r.who ≠ .client i)
    (hwaiter : a.store.waiter r.key ≠ some (.client i)) :
    h.hear ((a.store.handle present r).2.fateOf r.who (.client i)) = h := by
  rw [Store.unheard_of_unconcerned hwho hwaiter, Hand.hear_none]

theorem Hears.sound {h' : Hand} {v : Verdict Requester} (heard : Hears r v i h h')
    (sound : h.Sound) : h'.Sound := by
  cases heard with
  | kept => exact sound
  | granted c u hwork =>
    rintro w hw
    obtain rfl := Option.some.inj hw
    have hfits := sound _ hwork
    exact hfits
  | displaced c hwork =>
    rintro w hw
    obtain rfl := Option.some.inj hw
    have hfits := sound _ hwork
    exact hfits
  | released c u n _ hwork =>
    rintro w hw
    obtain rfl := Option.some.inj hw
    exact ⟨(sound _ hwork).1, Or.inr ⟨u, rfl⟩⟩

/-- About each key, a client that hears was granted it, or has it no more, or holds and shows no
more than it did; in the last case the request touched the key only if it was somebody else's. -/
theorem Hears.about {h' : Hand} {v : Verdict Requester} (heard : Hears r v i h h')
    (sound : h.Sound) (k : Key) :
    (∃ u, (Event.served r v).grant? = some ⟨k, .client i, u⟩ ∧ ∀ w, h'.Shows k w → w = u) ∨
      ¬ h'.Holds k ∨ (((h'.Holds k → h.Holds k) ∧ ∀ w, h'.Shows k w → h.Shows k w) ∧
        (r.who = .client i → (Event.served r v).Spares k)) := by
  have hspares : r.key ≠ k → (Event.served r v).Spares k := by
    intro hkey
    by_contra htouched
    exact hkey (served_of_not_spares htouched).1
  cases heard with
  | kept hown =>
    refine Or.inr (Or.inr ⟨⟨fun hk => hk, fun w hk => hk⟩, fun hwho => ?_⟩)
    obtain ⟨d, rfl⟩ := hown hwho
    by_contra htouched
    obtain ⟨_, ⟨u, hv⟩ | ⟨u, n, hv⟩⟩ := served_of_not_spares htouched
    · cases hv
    · cases hv
  | granted c u hwork hgrant =>
    have hmiss : h.cache[r.key]? = none := sound _ hwork
    by_cases hkey : r.key = k
    · subst hkey
      refine Or.inl ⟨u, hgrant, ?_⟩
      rintro w (⟨hcache, _⟩ | ⟨c', hpromised⟩)
      · rw [hmiss] at hcache
        cases hcache
      · cases hpromised
        rfl
    · refine Or.inr (Or.inr ⟨Hand.within_of_cache rfl (Hand.not_putting_of_get hwork) ?_,
        fun _ => hspares hkey⟩)
      rintro w ⟨c', hpromised⟩
      cases hpromised
      exact hkey rfl
  | displaced c hwork hparked hother =>
    refine Or.inr (Or.inr ⟨Hand.within_of_cache rfl (Hand.not_putting_of_get hwork) ?_,
      fun hwho => absurd hwho hother⟩)
    rintro w ⟨c', hpromised⟩
    cases hpromised
  | released c u n hown hwork haccepted =>
    by_cases hkey : r.key = k
    · subst hkey
      refine Or.inr (Or.inl ?_)
      rintro (⟨_, hkept⟩ | ⟨w, c', hpromised⟩)
      · exact hkept ⟨c, u, u, rfl⟩
      · cases hpromised
    · have hput : ¬ h.Putting k := fun hput => hkey (Hand.key_of_putting hwork hput)
      refine Or.inr (Or.inr ⟨Hand.within_of_cache rfl hput ?_, fun _ => hspares hkey⟩)
      rintro w ⟨c', hpromised⟩
      cases hpromised

/-- Those who are parked afterwards hear nothing of it. -/
theorem Routed.hear_of_parked {k : Key} (routed : Routed a) (hr : r ∈ a.queue)
    (hi : a.hand i = some h)
    (hwaits : (a.store.handle present r).1.waiter k = some (.client i)) :
    h.hear ((a.store.handle present r).2.fateOf r.who (.client i)) = h := by
  rcases Store.waiter_cases hwaits with ⟨hbefore, hsame⟩ | ⟨rfl, hown, _, hv⟩
  · have hwho : r.who ≠ .client i := fun hown => routed.apart r hr i k hown hbefore
    rw [Store.unheard_of_kept hwho (fun hother => ?_) hsame, Hand.hear_none]
    obtain ⟨c, hwork⟩ := routed.parked k i h hbefore hi
    obtain ⟨c', hwork'⟩ := routed.parked r.key i h hother hi
    rw [hwork] at hwork'
    cases hwork'
    rfl
  · rw [hv, Verdict.fateOf_parked, if_neg (routed.apart r hr i r.key hown), Hand.hear_none]

theorem routed_served (routed : Routed a) (hqueue : a.queue = r :: rest)
    (haccepts : ∀ u, r.op = .write u → (a.store.handle present r).2 ≠ .refused) :
    Routed (a.served present r rest) := by
  obtain ⟨hr, hrest⟩ := mem_queue hqueue
  obtain ⟨hfirst, hsingle⟩ := List.pairwise_cons.mp (hqueue ▸ routed.single)
  refine ⟨?_, ?_, ?_, hsingle, ?_, fun q hq => routed.outside q (hrest q hq)⟩
  · intro i h' hi'
    obtain ⟨h, hi, rfl⟩ := hand_served.mp hi'
    exact (routed.hears hr hi haccepts).sound (routed.sound i h hi)
  · intro q hq i h' hwho hi'
    obtain ⟨h, hi, rfl⟩ := hand_served.mp hi'
    have hne : r.who ≠ .client i := fun hown => hfirst q hq i hown hwho
    rw [hear_of_unconcerned hne (routed.apart q (hrest q hq) i r.key hwho)]
    exact routed.asked q (hrest q hq) i h hwho hi
  · intro k i h' hwaits hi'
    obtain ⟨h, hi, rfl⟩ := hand_served.mp hi'
    rw [routed.hear_of_parked hr hi hwaits]
    rcases Store.waiter_cases hwaits with ⟨hbefore, _⟩ | ⟨rfl, hown, hread, _⟩
    · exact routed.parked k i h hbefore hi
    · exact routed.awaits_read hr hown hi hread
  · intro q hq i k hwho hwaits
    rcases Store.waiter_cases hwaits with ⟨hbefore, _⟩ | ⟨_, hown, _⟩
    · exact routed.apart q (hrest q hq) i k hwho hbefore
    · exact hfirst q hq i hown hwho

theorem Routed.handed (routed : Routed a) {x : Option Hand}
    (hx : ∀ h, x = some h → h.Sound ∧ a.Free i) : Routed (a.handed i x) := by
  refine ⟨?_, ?_, ?_, routed.single, routed.apart, routed.outside⟩
  · intro j h hj
    rcases handed_cases hj with ⟨_, hxh⟩ | hj
    · exact (hx h hxh).1
    · exact routed.sound j h hj
  · intro r hr j h hwho hj
    rcases handed_cases hj with ⟨rfl, hxh⟩ | hj
    · exact absurd hwho ((hx h hxh).2.unasked r hr)
    · exact routed.asked r hr j h hwho hj
  · intro k j h hwaits hj
    rcases handed_cases hj with ⟨rfl, hxh⟩ | hj
    · exact absurd hwaits ((hx h hxh).2.unparked k)
    · exact routed.parked k j h hwaits hj

theorem Routed.cleared (routed : Routed a) (hrest : rest.Sublist a.queue) :
    Routed (a.cleared rest) where
  sound := routed.sound
  asked r hr := routed.asked r (hrest.subset hr)
  parked := routed.parked
  single := routed.single.sublist hrest
  apart r hr := routed.apart r (hrest.subset hr)
  outside r hr := routed.outside r (hrest.subset hr)

theorem Routed.sent (routed : Routed a) (hcaller : ∀ c v, r.who = .caller c → r.op ≠ .write v)
    (hclient : ∀ i, r.who = .client i → a.Free i ∧ ∀ h, a.hand i = some h →
      ∃ act, h.Awaits act r.key ∧ act.operation = r.op) : Routed (a.sent r) := by
  refine ⟨routed.sound, ?_, routed.parked, ?_, ?_, ?_⟩
  · intro q hq i h hwho hi
    rcases List.mem_append.mp hq with hq | hq
    · exact routed.asked q hq i h hwho hi
    · obtain rfl := List.mem_singleton.mp hq
      exact (hclient i hwho).2 h hi
  · refine List.pairwise_append.mpr ⟨routed.single, List.pairwise_singleton _ _, ?_⟩
    intro q hq q' hq' i hwho hwho'
    obtain rfl := List.mem_singleton.mp hq'
    exact (hclient i hwho').1.unasked q hq hwho
  · intro q hq i k hwho
    rcases List.mem_append.mp hq with hq | hq
    · exact routed.apart q hq i k hwho
    · obtain rfl := List.mem_singleton.mp hq
      exact (hclient i hwho).1.unparked k
  · intro q hq c v hwho
    rcases List.mem_append.mp hq with hq | hq
    · exact routed.outside q hq c v hwho
    · obtain rfl := List.mem_singleton.mp hq
      exact hcaller c v hwho

theorem Routed.free_of_idle (routed : Routed a) (hi : a.hand i = some h) (hidle : h.work = none) :
    a.Free i := by
  refine routed.free hi ?_
  rintro act k ⟨c, hwork⟩
  rw [hidle] at hwork
  cases hwork

theorem Routed.free_of_answer {job : Job} {slot : Slot StoreReply} {answer : Option StoreReply}
    (routed : Routed a) (hi : a.hand i = some h) (hwork : h.work = some ⟨job, slot⟩)
    (hanswer : slot.answer? = some answer) : a.Free i := by
  refine routed.free hi ?_
  rintro act k ⟨c, hwork'⟩
  rw [hwork] at hwork'
  cases hwork'
  cases hanswer

theorem routed_ask {job : Job} {cache : Cache} (routed : Routed a) (hi : a.hand i = some h)
    (hidle : h.work = none) (hstart : h.cache.start job.key job.action = (cache, none)) :
    Routed ((a.handed i (some ⟨cache, some ⟨job, .empty⟩⟩)).sent
      ⟨job.action.operation, job.key, .client i⟩) := by
  have hfree := routed.free_of_idle hi hidle
  have hhanded := routed.handed (i := i) (x := some ⟨cache, some ⟨job, .empty⟩⟩) fun h' hx => by
    obtain rfl := Option.some.inj hx
    exact ⟨(Hand.asks hidle hstart).1, hfree⟩
  refine hhanded.sent (by simp) ?_
  rintro j hj
  obtain rfl := Requester.client.inj hj
  refine ⟨⟨hfree.unasked, hfree.unparked⟩, ?_⟩
  intro h' hi'
  obtain rfl : _ = h' := by simpa [Scene.handed] using hi'
  exact ⟨job.action, ⟨job.call, rfl⟩, rfl⟩

/-- Without writes from outside, no step upsets the routing, provided no write is turned down. -/
theorem routed_step {es : List Event} (hwrites : ∀ v, ¬ R.asks (.write v)) (routed : Routed a)
    (haccepts : ∀ present, ∀ r ∈ a.queue, ∀ u, r.op = .write u →
      (a.store.handle present r).2 ≠ .refused)
    (hstep : Step R a es b) : Routed b := by
  cases hstep with
  | aside => exact routed
  | post r c hwho hop =>
    refine routed.sent ?_ (by simp [hwho])
    intro c' v _ hwrite
    exact hwrites v (hwrite ▸ hop)
  | withdraw rest hrest => exact routed.cleared hrest
  | stop i rest _ _ hrest => exact (routed.cleared hrest).handed (by simp)
  | serve present r rest hqueue =>
    exact routed_served routed hqueue (haccepts present r (mem_queue hqueue).1)
  | ask i h job cache hi hidle hstart => exact routed_ask routed hi hidle hstart
  | settle i h job cache r hi hidle =>
    refine routed.handed fun h' hx => ?_
    obtain rfl := Option.some.inj hx
    exact ⟨Hand.sound_of_idle cache, routed.free_of_idle hi hidle⟩
  | finish i h job slot answer cache r hi hwork hanswer =>
    refine routed.handed fun h' hx => ?_
    obtain rfl := Option.some.inj hx
    exact ⟨Hand.sound_of_idle cache, routed.free_of_answer hi hwork hanswer⟩

end Scene

end Custody
