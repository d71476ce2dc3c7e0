import Custody.Proofs.Order.Fares

/-!
# One request at a time

A client has at most one request open: on its way to the store, or parked there. It is the request
of the job that the client has in hand, and the client has heard nothing of it. Whatever the store
decides about anybody's request, either the client's own request is done with, or the client hears
nothing and its request is open as before.
-/

namespace Custody

/-- How many requests of client `i` are on their way to the store or parked there. -/
def Cluster.openRequests (s : Cluster) (i : Nat) : Nat :=
  (s.sentBy (.client i)).length +
    s.keeper.store.waiters.toList.countP fun w => w.2 == .client i

namespace Cluster

/-- Where the open request of client `i` is, if there is one. -/
inductive Errand (s : Cluster) (i : Nat) : Option (Operation × Key) → Prop where
  | unasked (hsent : s.sentBy (.client i) = [])
      (hparked : ∀ k, s.keeper.store.waiter k ≠ some (.client i)) : Errand s i none
  | sent (r : Request Requester) (hsent : s.sentBy (.client i) = [r])
      (hparked : ∀ k, s.keeper.store.waiter k ≠ some (.client i)) :
      Errand s i (some (r.op, r.key))
  | parked (key : Key) (hsent : s.sentBy (.client i) = [])
      (hparked : ∀ k, s.keeper.store.waiter k = some (.client i) ↔ k = key) :
      Errand s i (some (.read, key))

/-- A client that runs has an open request only for the job in hand. -/
def OneErrand (s : Cluster) (i : Nat) (m : Member) : Prop :=
  ∃ o, s.Errand i o ∧ (m.running = true → ∀ q, o = some q →
    ∃ job, m.work = some ⟨job, .empty⟩ ∧ q = (job.action.operation, job.key))

variable {s t : Cluster} {l : Label} {es : List Event} {i : Nat} {m m' : Member}
  {o : Option (Operation × Key)} {r : Request Requester}

/-- At most one waiter of a store is client `i` if it is parked on one key only. -/
theorem countP_waiters_le {store : Store Requester} {x : Requester} {key : Key}
    (hparked : ∀ k, store.waiter k = some x → k = key) :
    (store.waiters.toList.countP fun w => w.2 == x) ≤ 1 := by
  have hkeys : ∀ w ∈ store.waiters.toList, (w.2 == x) = true → w.1 = key := by
    intro w hw hx
    refine hparked w.1 ?_
    rw [← eq_of_beq hx]
    exact Std.ExtTreeMap.mem_toList_iff_getElem?_eq_some.mp hw
  have hdistinct : store.waiters.toList.Pairwise fun a b => ¬ compare a.1 b.1 = .eq :=
    Std.ExtTreeMap.distinct_keys_toList
  generalize store.waiters.toList = l at hkeys hdistinct
  induction l with
  | nil => exact Nat.zero_le _
  | cons w rest ih =>
    obtain ⟨hhead, hrest⟩ := List.pairwise_cons.mp hdistinct
    have hlater := ih (fun w hw => hkeys w (List.mem_cons_of_mem _ hw)) hrest
    rw [List.countP_cons]
    split
    · rename_i hw
      have hnone : rest.countP (fun w => w.2 == x) = 0 := by
        rw [List.countP_eq_zero]
        intro v hv hx
        refine hhead v hv ?_
        rw [hkeys w List.mem_cons_self hw, hkeys v (List.mem_cons_of_mem _ hv) hx]
        exact Std.ReflCmp.compare_self
      omega
    · exact hlater

theorem Errand.openRequests_le (errand : s.Errand i o) : s.openRequests i ≤ 1 := by
  have hcount : ∀ hparked : ∀ k, s.keeper.store.waiter k ≠ some (.client i),
      (s.keeper.store.waiters.toList.countP fun w => w.2 == .client i) = 0 := by
    intro hparked
    rw [List.countP_eq_zero]
    intro w hw hx
    refine hparked w.1 ?_
    rw [← eq_of_beq hx]
    exact Std.ExtTreeMap.mem_toList_iff_getElem?_eq_some.mp hw
  rw [openRequests]
  cases errand with
  | unasked hsent hparked => simp [hsent, hcount hparked]
  | sent r hsent hparked => simp [hsent, hcount hparked]
  | parked key hsent hparked =>
    rw [hsent, List.length_nil, Nat.zero_add]
    exact countP_waiters_le fun k hk => (hparked k).mp hk

theorem Still.errand (still : s.Still t i) (errand : s.Errand i o) : t.Errand i o := by
  cases errand with
  | unasked hsent hparked => exact .unasked (still.sent ▸ hsent) (still.store ▸ hparked)
  | sent r hsent hparked => exact .sent r (still.sent ▸ hsent) (still.store ▸ hparked)
  | parked key hsent hparked =>
    exact .parked key (still.sent ▸ hsent) (still.store ▸ hparked)

/-! ## The store decides -/

/-- Only its requester comes to wait at a request. -/
theorem waiter_of_handle {store : Store Requester} {present : Requester → Bool} {x : Requester}
    {k : Key} (hne : r.who ≠ x) (h : (store.handle present r).1.waiter k = some x) :
    store.waiter k = some x := by
  obtain ⟨hwaits, _⟩ | ⟨_, hown, _⟩ := Store.waiter_cases h
  · exact hwaits
  · exact absurd hown hne

/-- After the decision on somebody else's request client `i` has nothing open, or it hears nothing
and has open what it had. -/
theorem Errand.serve_other (errand : s.Errand i o) (hwho : r.who ≠ .client i)
    (hsent : t.sentBy (.client i) = s.sentBy (.client i))
    (hstore : t.keeper.store = (s.keeper.store.handle s.isPresent r).1) :
    t.Errand i none ∨ (t.Errand i o ∧
      (s.keeper.store.handle s.isPresent r).2.fateOf r.who (.client i) = none) := by
  cases errand with
  | unasked hnone hparked =>
    refine Or.inl (.unasked (hsent.trans hnone) fun k hk => ?_)
    rw [hstore] at hk
    exact hparked k (waiter_of_handle hwho hk)
  | sent q hone hparked =>
    refine Or.inr ⟨.sent q (hsent.trans hone) fun k hk => ?_,
      Store.unheard_of_unconcerned hwho (hparked _)⟩
    rw [hstore] at hk
    exact hparked k (waiter_of_handle hwho hk)
  | parked key hnone hparked =>
    by_cases hstays : t.keeper.store.waiter key = some (.client i)
    · refine Or.inr ⟨.parked key (hsent.trans hnone) fun k => ⟨fun hk => ?_, ?_⟩, ?_⟩
      · rw [hstore] at hk
        exact (hparked k).mp (waiter_of_handle hwho hk)
      · rintro rfl
        exact hstays
      · refine Store.unheard_of_kept (k := key) hwho (fun hk => (hparked _).mp hk) ?_
        rintro rfl d v n
        rw [hstore, Store.waiter_handle] at hstays
        constructor
        · intro hv
          rw [hv] at hstays
          simp only [if_true] at hstays
          exact hwho (Option.some.inj hstays)
        · intro hv
          rw [hv] at hstays
          simp at hstays
    · refine Or.inl (.unasked (hsent.trans hnone) fun k hk => hstays ?_)
      have hbefore := hk
      rw [hstore] at hbefore
      rw [← (hparked k).mp (waiter_of_handle hwho hbefore)]
      exact hk

/-- Its own request is parked, and then the client hears nothing, or it is done with. -/
theorem Errand.serve_own (errand : s.Errand i o) (hwho : r.who = .client i)
    (hqueue : s.sentBy (.client i) = r :: t.sentBy (.client i))
    (hstore : t.keeper.store = (s.keeper.store.handle s.isPresent r).1) :
    t.Errand i none ∨ (t.Errand i o ∧
      (s.keeper.store.handle s.isPresent r).2.fateOf r.who (.client i) = none) := by
  obtain ⟨hempty, hparked, ho⟩ : t.sentBy (.client i) = [] ∧
      (∀ k, s.keeper.store.waiter k ≠ some (.client i)) ∧ o = some (r.op, r.key) := by
    cases errand with
    | unasked hsent hparked => rw [hsent] at hqueue; cases hqueue
    | sent q hsent hparked =>
      rw [hsent] at hqueue
      obtain ⟨rfl, hempty⟩ := List.cons.inj hqueue
      exact ⟨hempty.symm, hparked, rfl⟩
    | parked key hsent hparked => rw [hsent] at hqueue; cases hqueue
  subst ho
  -- unless it is parked, nobody comes to wait
  have hkept : (∀ d, (s.keeper.store.handle s.isPresent r).2 ≠ .parked d) → ∀ k,
      t.keeper.store.waiter k = some (.client i) → s.keeper.store.waiter k = some (.client i) := by
    intro hanswered k hk
    rw [hstore] at hk
    obtain ⟨hwaits, _⟩ | ⟨_, _, _, hv⟩ := Store.waiter_cases hk
    · exact hwaits
    · exact absurd hv (hanswered _)
  cases hv : (s.keeper.store.handle s.isPresent r).2 with
  | parked d =>
    obtain ⟨hop, _, hd⟩ := Store.op_of_parked hv
    right
    rw [hop]
    refine ⟨.parked r.key hempty fun k => ?_, ?_⟩
    · rw [hstore, Store.waiter_handle, hv]
      simp only
      split
      · rename_i hk
        simp [hwho, hk]
      · rename_i hk
        exact ⟨fun h => absurd h (hparked k), fun h => absurd h.symm hk⟩
    · rw [Verdict.fateOf_parked, hd, if_neg (hparked _)]
  | granted v => exact Or.inl (.unasked hempty fun k hk => hparked k (hkept (by simp [hv]) k hk))
  | accepted v n => exact Or.inl (.unasked hempty fun k hk => hparked k (hkept (by simp [hv]) k hk))
  | refused => exact Or.inl (.unasked hempty fun k hk => hparked k (hkept (by simp [hv]) k hk))

/-! ## Steps and runs -/

theorem oneErrand_step (h : s.Fares t i m l es m') (one : s.OneErrand i m) : t.OneErrand i m' := by
  obtain ⟨o, errand, hwork⟩ := one
  -- an idle client that runs has nothing open
  have hnone : m.running = true → (∀ job, m.work ≠ some ⟨job, .empty⟩) → o = none := by
    intro hrun hbusy
    cases o with
    | none => rfl
    | some q =>
      obtain ⟨job, hjob, _⟩ := hwork hrun q rfl
      exact absurd hjob (hbusy job)
  cases h with
  | kept handle still => exact ⟨o, still.errand errand, hwork⟩
  | called a manner k still => exact ⟨o, still.errand errand, hwork⟩
  | withdrew c call a manner still => exact ⟨o, still.errand errand, hwork⟩
  | served r hrun hqueue hstays hstore =>
    have hserved : t.Errand i none ∨ (t.Errand i o ∧
        (s.keeper.store.handle s.isPresent r).2.fateOf r.who (.client i) = none) := by
      by_cases hwho : r.who = .client i
      · refine errand.serve_own hwho ?_ hstore
        rw [sentBy, hqueue, List.filter_cons_of_pos (by simp [hwho])]
        rfl
      · refine errand.serve_other hwho ?_ hstore
        rw [sentBy, sentBy, hqueue, List.filter_cons_of_neg (by simp [hwho])]
    rcases hserved with hgone | ⟨hopen, hunheard⟩
    · exact ⟨none, hgone, fun _ q hq => by cases hq⟩
    · rw [hunheard, Member.hear_none]
      exact ⟨o, hopen, hwork⟩
  | settled job rest cache r still hrun hidle =>
    obtain rfl := hnone hrun (by simp [hidle])
    exact ⟨none, still.errand errand, fun _ q hq => by cases hq⟩
  | asked job rest cache hrun hidle hentries hstart hkeeper hstays hstore hsent =>
    obtain rfl := hnone hrun (by simp [hidle])
    cases errand with
    | unasked hempty hparked =>
      rw [hempty] at hsent
      refine ⟨_, .sent _ hsent (hstore ▸ hparked), fun _ q hq => ⟨job, rfl, ?_⟩⟩
      exact (Option.some.inj hq).symm
  | refused job rest cache last r still hrun hidle =>
    obtain rfl := hnone hrun (by simp [hidle])
    exact ⟨none, still.errand errand, fun _ q hq => by cases hq⟩
  | finished job slot answer cache r still hjob hanswer =>
    refine ⟨o, still.errand errand, fun hrun q hq => ?_⟩
    rw [hnone hrun ?_] at hq
    · cases hq
    · intro other hother
      rw [hjob] at hother
      cases hother
      cases hanswer
  | left still => exact ⟨o, still.errand errand, fun hrun => by cases hrun⟩
  | killed hrun hstays hstore hsent =>
    have hhalt : ∀ o', t.Errand i o' → t.OneErrand i m.halt :=
      fun o' h => ⟨o', h, fun hrun => by cases hrun⟩
    cases errand with
    | unasked hempty hparked =>
      rw [hempty, List.sublist_nil] at hsent
      exact hhalt _ (.unasked hsent (hstore ▸ hparked))
    | sent r hone hparked =>
      rw [hone] at hsent
      rcases List.sublist_singleton.mp hsent with hempty | hone
      · exact hhalt _ (.unasked hempty (hstore ▸ hparked))
      · exact hhalt _ (.sent r hone (hstore ▸ hparked))
    | parked key hempty hparked =>
      rw [hempty, List.sublist_nil] at hsent
      exact hhalt _ (.parked key hsent (hstore ▸ hparked))
  | bereft f k hspares hkeeper =>
    refine ⟨none, .unasked ?_ fun key hkey => ?_, fun _ q hq => by cases hq⟩
    · rw [sentBy, requests, hkeeper]
      rfl
    · rw [hkeeper] at hkey
      simp [Keeper.halt, Store.waiter] at hkey

theorem oneErrand_run {setup : Setup} {labels : List Label}
    (h : (start setup).run labels = some (s, es)) (hm : s.members[i]? = some m) :
    s.OneErrand i m := by
  refine run_induction (A := fun _ => True) (P := fun s _ => ∀ m, s.members[i]? = some m →
    s.OneErrand i m) ?_ (fun _ _ => trivial) [] ?_ h m hm
  · intro s past l t now _ ih hstep m' hm'
    obtain ⟨m, hm, fares⟩ := fares_before hstep hm'
    exact oneErrand_step fares (ih m hm)
  · intro m _
    refine ⟨none, .unasked rfl fun k hk => ?_, fun _ q hq => by cases hq⟩
    simp [start, Store.waiter] at hk

end Cluster

end Custody
