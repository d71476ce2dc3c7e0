import Custody.Proofs.Store.Marks
import Custody.Store.Desk
import Custody.Store.Snapshot

/-!
# Keys do not interfere

What the store decides about a key, who hears of it and what becomes of the key depends on the
requests on that key and on whether those who made them are still there. So all other steps can be
taken out of a history of a desk, and two requests on different keys can change places.
-/

namespace Custody

namespace Store

variable {ρ : Type} {present present' : ρ → Bool} {s s' : Store ρ} {r : Request ρ} {k : Key}

theorem value_of_other (hkey : r.key ≠ k) : (s.handle present r).1.value k = s.value k := by
  rw [value_handle]
  cases (s.handle present r).2 <;> simp [hkey]

theorem waiter_of_other (hkey : r.key ≠ k) : (s.handle present r).1.waiter k = s.waiter k := by
  rw [waiter_handle]
  cases (s.handle present r).2 <;> simp [hkey]

/-- Of those who may have gone away only the waiter of the key matters. -/
theorem verdict_congr (hvalue : s.value r.key = s'.value r.key)
    (howned : s.isOwned r.key = s'.isOwned r.key) (hwaiter : s.waiter r.key = s'.waiter r.key)
    (hpresent : ∀ x, s.waiter r.key = some x → present x = present' x) :
    (s.handle present r).2 = (s'.handle present' r).2 := by
  cases hop : r.op with
  | read => rw [verdict_read hop, verdict_read hop, howned, hwaiter, hvalue]
  | write v =>
    have hnext : s.handover present r.key = s'.handover present' r.key := by
      simp only [handover, ← hwaiter]
      cases hw : s.waiter r.key with
      | none => rfl
      | some x => simp only [hpresent x hw]
    rw [verdict_write hop, verdict_write hop, hvalue, hnext]
  | unsupported name => rw [verdict_unsupported hop, verdict_unsupported hop]

/-- Only the requester and the waiter of the key hear of a request. -/
theorem concerned_of_fate {x : ρ} {f : Fate}
    (h : (x, f) ∈ (s.handle present r).2.fates r.who) : x = r.who ∨ s.waiter r.key = some x := by
  cases hv : (s.handle present r).2 with
  | granted v =>
    rw [hv] at h
    simp only [Verdict.fates, List.mem_singleton, Prod.mk.injEq] at h
    exact Or.inl h.1
  | parked d =>
    rw [hv] at h
    cases d with
    | none => cases h
    | some d =>
      simp only [Verdict.fates, List.mem_singleton, Prod.mk.injEq] at h
      right
      rw [h.1]
      exact (op_of_parked hv).2.2.symm
  | accepted v n =>
    cases n with
    | passed next =>
      have hnext := waiter_of_accepted hv
      rw [hv] at h
      simp only [Verdict.fates, List.mem_cons, List.not_mem_nil, or_false, Prod.mk.injEq] at h
      rcases h with ⟨hx, _⟩ | ⟨hx, _⟩
      · exact Or.inl hx
      · right
        rw [hx]
        exact hnext
    | freed =>
      rw [hv] at h
      simp only [Verdict.fates, List.mem_singleton, Prod.mk.injEq] at h
      exact Or.inl h.1
    | vanished next =>
      rw [hv] at h
      simp only [Verdict.fates, List.mem_singleton, Prod.mk.injEq] at h
      exact Or.inl h.1
  | refused =>
    rw [hv] at h
    simp only [Verdict.fates, List.mem_singleton, Prod.mk.injEq] at h
    exact Or.inl h.1

/-- Nothing belongs to a store but the values, the owned keys and the waiters. -/
theorem ext_of_keys (hvalue : ∀ k, s.value k = s'.value k)
    (howned : ∀ k, s.isOwned k = s'.isOwned k) (hwaiter : ∀ k, s.waiter k = s'.waiter k) :
    s = s' := by
  obtain ⟨values, owned, waiters⟩ := s
  obtain ⟨values', owned', waiters'⟩ := s'
  congr
  · exact Std.ExtTreeMap.ext_getElem? hvalue
  · exact Std.ExtTreeSet.ext_contains howned
  · exact Std.ExtTreeMap.ext_getElem? hwaiter

end Store

namespace Desk

/-- What a step shows of a key: the verdict, who hears of it, and the key afterwards. -/
structure Showing where
  step : Step
  verdict : Option (Verdict Ticket)
  heard : List (Ticket × Fate)
  value : Option Value
  owned : Bool
  waiter : Option Ticket
  deriving DecidableEq, Repr

def showing (d : Desk) (k : Key) (st : Step) : Showing where
  step := st
  verdict := (d.step st).2
  heard := d.heard st
  value := (d.step st).1.store.value k
  owned := (d.step st).1.store.isOwned k
  waiter := (d.step st).1.store.waiter k

def showings (k : Key) (d : Desk) : List Step → List Showing
  | [] => []
  | st :: rest => d.showing k st :: showings k (d.step st).1 rest

def requests (steps : List Step) : List (Request Ticket) := steps.filterMap fun
  | .submit r _ => some r
  | .leave _ => none

/-- `t` is the ticket of a request on `k`. -/
def asksFor (steps : List Step) (k : Key) (t : Ticket) : Bool :=
  (requests steps).any fun r => r.who == t && r.key == k

/-- No ticket is used for two keys. -/
def OneKeyEach (steps : List Step) : Prop :=
  ∀ r ∈ requests steps, ∀ r' ∈ requests steps, r.who = r'.who → r.key = r'.key

/-- A request on `k`, or a requester of `k` who leaves; `mine` are the tickets of such. -/
def Step.concerns (mine : Ticket → Bool) (k : Key) : Step → Bool
  | .submit r _ => r.key == k
  | .leave t => mine t

/-- Two desks at which the same goes on about `k`. The tickets `mine` are those of requests on
`k`, so in the first desk they wait for no other key. -/
structure Alike (mine : Ticket → Bool) (k : Key) (d d' : Desk) : Prop where
  value : d.store.value k = d'.store.value k
  owned : d.store.isOwned k = d'.store.isOwned k
  waiter : d.store.waiter k = d'.store.waiter k
  present : ∀ t, mine t = true → d.isPresent t = d'.isPresent t
  parked : ∀ k' t, d.store.waiter k' = some t → (mine t = true ↔ k' = k)

variable {mine : Ticket → Bool} {k : Key} {d d' : Desk} {st : Step} {r : Request Ticket}
  {gone : Bool} {steps : List Step}

theorem run_cons (d : Desk) (st : Step) (rest : List Step) :
    d.run (st :: rest) = (d.step st).1.run rest := rfl

theorem mem_requests : r ∈ requests steps ↔ ∃ gone, .submit r gone ∈ steps := by
  rw [requests, List.mem_filterMap]
  constructor
  · rintro ⟨st, hst, hr⟩
    cases st with
    | submit r' gone =>
      obtain rfl := Option.some.inj hr
      exact ⟨gone, hst⟩
    | leave t => cases hr
  · rintro ⟨gone, hst⟩
    exact ⟨_, hst, rfl⟩

theorem asksFor_iff {t : Ticket} :
    asksFor steps k t = true ↔ ∃ r ∈ requests steps, r.who = t ∧ r.key = k := by
  simp [asksFor]

/-- A ticket tells the key it is for. -/
theorem OneKeyEach.asksFor_who (single : OneKeyEach steps) (h : r ∈ requests steps) :
    asksFor steps k r.who = true ↔ r.key = k := by
  rw [asksFor_iff]
  constructor
  · rintro ⟨r', h', hwho, rfl⟩
    exact single r h r' h' hwho.symm
  · intro hkey
    exact ⟨r, h, rfl, hkey⟩

/-! ## Who is there -/

theorem compare_beq_eq (t x : Ticket) : (compare t x == .eq) = (t == x) := by
  rw [Bool.eq_iff_iff, beq_iff_eq, beq_iff_eq, compare_eq_iff_eq]

theorem isPresent_receive (d : Desk) (t x : Ticket) (gone : Bool) :
    (d.receive t gone).isPresent x = (!gone && t == x || d.isPresent x) := by
  cases gone with
  | true => simp [receive]
  | false => simp [receive, isPresent, compare_beq_eq]

theorem isPresent_leave (d : Desk) (t x : Ticket) :
    (d.leave t).isPresent x = (d.isPresent x && !(t == x)) := by
  rw [leave, isPresent, Std.ExtTreeSet.contains_erase, Bool.and_comm, bne, compare_beq_eq]
  rfl

theorem contains_foldl_erase (fates : List (Ticket × Fate)) (p : Std.ExtTreeSet Ticket)
    (x : Ticket) : (fates.foldl (fun p f => p.erase f.1) p).contains x =
      (p.contains x && !fates.any fun f => f.1 == x) := by
  induction fates generalizing p with
  | nil => simp
  | cons f rest ih =>
    rw [List.foldl_cons, ih, Std.ExtTreeSet.contains_erase, bne, compare_beq_eq, List.any_cons,
      Bool.not_or, Bool.and_comm (!f.1 == x), Bool.and_assoc]

/-- Whoever hears of a request need not stay. -/
theorem isPresent_serve (d : Desk) (r : Request Ticket) (x : Ticket) :
    (d.serve r).1.isPresent x = (d.isPresent x &&
      !((d.store.handle d.isPresent r).2.fates r.who).any fun f => f.1 == x) :=
  contains_foldl_erase _ _ _

/-! ## One step -/

theorem Alike.receive (alike : Alike mine k d d') (t : Ticket) (gone : Bool) :
    Alike mine k (d.receive t gone) (d'.receive t gone) where
  value := by cases gone <;> exact alike.value
  owned := by cases gone <;> exact alike.owned
  waiter := by cases gone <;> exact alike.waiter
  present x hx := by rw [isPresent_receive, isPresent_receive, alike.present x hx]
  parked := by cases gone <;> exact alike.parked

/-- On a request for `k` the store decides the same at both desks. -/
theorem Alike.verdict (alike : Alike mine k d d') (hkey : r.key = k) :
    (d.serve r).2 = (d'.serve r).2 := by
  subst hkey
  refine Store.verdict_congr alike.value alike.owned alike.waiter ?_
  intro x hx
  exact alike.present x ((alike.parked _ x hx).mpr rfl)

theorem Alike.parked_serve (alike : Alike mine k d d') (hwho : mine r.who = true ↔ r.key = k)
    (k' : Key) (t : Ticket) (ht : (d.serve r).1.store.waiter k' = some t) :
    mine t = true ↔ k' = k := by
  rcases Store.waiter_cases ht with ⟨hbefore, _⟩ | ⟨hkey, ht, _⟩
  · exact alike.parked k' t hbefore
  · rw [← ht, ← hkey]
    exact hwho

theorem Alike.serve (alike : Alike mine k d d') (hwho : mine r.who = true ↔ r.key = k)
    (hkey : r.key = k) : Alike mine k (d.serve r).1 (d'.serve r).1 := by
  have hsame : (d.store.handle d.isPresent r).2 = (d'.store.handle d'.isPresent r).2 :=
    alike.verdict hkey
  constructor
  · change (d.store.handle d.isPresent r).1.value k = (d'.store.handle d'.isPresent r).1.value k
    rw [Store.value_handle, Store.value_handle, hsame, alike.value]
  · change (d.store.handle d.isPresent r).1.isOwned k =
      (d'.store.handle d'.isPresent r).1.isOwned k
    rw [Store.isOwned_handle, Store.isOwned_handle, hsame, alike.owned]
  · change (d.store.handle d.isPresent r).1.waiter k = (d'.store.handle d'.isPresent r).1.waiter k
    rw [Store.waiter_handle, Store.waiter_handle, hsame, alike.waiter]
  · intro t ht
    rw [isPresent_serve, isPresent_serve, hsame, alike.present t ht]
  · exact alike.parked_serve hwho

/-- A requester of `k` has made no request for another key and does not wait for it. -/
theorem Alike.unheard (alike : Alike mine k d d') (hwho : mine r.who = true ↔ r.key = k)
    (hkey : r.key ≠ k) {t : Ticket} {f : Fate}
    (hf : (t, f) ∈ (d.store.handle d.isPresent r).2.fates r.who) : mine t = false := by
  rw [← Bool.not_eq_true]
  intro ht
  rcases Store.concerned_of_fate hf with rfl | hwaits
  · exact hkey (hwho.mp ht)
  · exact hkey ((alike.parked _ t hwaits).mp ht)

/-- A request for another key is not noticed, so the second desk need not see it. -/
theorem Alike.serve_other (alike : Alike mine k d d') (hwho : mine r.who = true ↔ r.key = k)
    (hkey : r.key ≠ k) : Alike mine k (d.serve r).1 d' := by
  constructor
  · exact (Store.value_of_other hkey).trans alike.value
  · exact (Store.isOwned_of_other hkey).trans alike.owned
  · exact (Store.waiter_of_other hkey).trans alike.waiter
  · intro t ht
    have hunheard : ((d.store.handle d.isPresent r).2.fates r.who).any (fun f => f.1 == t) =
        false := by
      rw [List.any_eq_false]
      rintro ⟨x, f⟩ hf hx
      obtain rfl : x = t := by simpa using hx
      have hother := alike.unheard hwho hkey hf
      rw [ht] at hother
      cases hother
    rw [isPresent_serve, hunheard, alike.present t ht]
    simp
  · exact alike.parked_serve hwho

theorem Alike.receive_other (alike : Alike mine k d d') {t : Ticket} (ht : mine t ≠ true)
    (gone : Bool) : Alike mine k (d.receive t gone) d' where
  value := by cases gone <;> exact alike.value
  owned := by cases gone <;> exact alike.owned
  waiter := by cases gone <;> exact alike.waiter
  present x hx := by
    have hne : t ≠ x := by
      rintro rfl
      exact ht hx
    rw [isPresent_receive, alike.present x hx]
    simp [hne]
  parked := by cases gone <;> exact alike.parked

theorem Alike.leave (alike : Alike mine k d d') (t : Ticket) :
    Alike mine k (d.leave t) (d'.leave t) where
  value := alike.value
  owned := alike.owned
  waiter := alike.waiter
  present x hx := by rw [isPresent_leave, isPresent_leave, alike.present x hx]
  parked := alike.parked

theorem Alike.leave_other (alike : Alike mine k d d') {t : Ticket} (ht : mine t ≠ true) :
    Alike mine k (d.leave t) d' where
  value := alike.value
  owned := alike.owned
  waiter := alike.waiter
  present x hx := by
    have hne : t ≠ x := by
      rintro rfl
      exact ht hx
    rw [isPresent_leave, alike.present x hx]
    simp [hne]
  parked := alike.parked

/-- Whoever hears of a request for `k` at one desk hears of it at the other. -/
theorem Alike.heard (alike : Alike mine k d d') (hwho : mine r.who = true ↔ r.key = k)
    (hkey : r.key = k) : d.heard (.submit r gone) = d'.heard (.submit r gone) := by
  have hfront := alike.receive r.who gone
  simp only [Desk.heard, ← hfront.verdict hkey]
  apply List.filter_congr
  rintro ⟨x, f⟩ hf
  apply hfront.present
  rcases Store.concerned_of_fate hf with rfl | hwaits
  · exact hwho.mpr hkey
  · exact (hfront.parked _ x hwaits).mpr hkey

/-- A step about `k` shows the same at both desks, and they stay alike. -/
theorem Alike.step (alike : Alike mine k d d')
    (hmine : ∀ r gone, st = .submit r gone → (mine r.who = true ↔ r.key = k))
    (hst : st.concerns mine k = true) :
    d.showing k st = d'.showing k st ∧ Alike mine k (d.step st).1 (d'.step st).1 := by
  have hlast : Alike mine k (d.step st).1 (d'.step st).1 ∧ (d.step st).2 = (d'.step st).2 ∧
      d.heard st = d'.heard st := by
    cases st with
    | submit r gone =>
      have hkey : r.key = k := by simpa [Step.concerns] using hst
      have hwho := hmine r gone rfl
      have hfront := alike.receive r.who gone
      refine ⟨hfront.serve hwho hkey, ?_, alike.heard hwho hkey⟩
      exact congrArg some (hfront.verdict hkey)
    | leave t => exact ⟨alike.leave t, rfl, rfl⟩
  obtain ⟨hafter, hverdict, hheard⟩ := hlast
  refine ⟨?_, hafter⟩
  simp only [showing, hverdict, hheard, hafter.value, hafter.owned, hafter.waiter]

/-- Of any other step no requester of `k` hears, and only the first desk need take it. -/
theorem Alike.step_other (alike : Alike mine k d d')
    (hmine : ∀ r gone, st = .submit r gone → (mine r.who = true ↔ r.key = k))
    (hst : st.concerns mine k = false) :
    (∀ f ∈ d.heard st, mine f.1 = false) ∧ Alike mine k (d.step st).1 d' := by
  cases st with
  | submit r gone =>
    have hkey : r.key ≠ k := by simpa [Step.concerns] using hst
    have hwho := hmine r gone rfl
    have hfront : Alike mine k (d.receive r.who gone) d' :=
      alike.receive_other (fun h => hkey (hwho.mp h)) gone
    refine ⟨?_, hfront.serve_other hwho hkey⟩
    rintro ⟨t, f⟩ hf
    exact hfront.unheard hwho hkey (List.mem_filter.mp hf).1
  | leave t => exact ⟨by simp [Desk.heard], alike.leave_other (by simpa [Step.concerns] using hst)⟩

/-! ## Many steps -/

theorem alike_start (mine : Ticket → Bool) (k : Key) : Alike mine k {} {} where
  value := rfl
  owned := rfl
  waiter := rfl
  present _ _ := rfl
  parked := by simp [Store.waiter]

/-- What concerns `k` goes on in the same way when all else is left out. -/
theorem Alike.run (alike : Alike mine k d d')
    (hmine : ∀ r gone, .submit r gone ∈ steps → (mine r.who = true ↔ r.key = k)) :
    (showings k d steps).filter (fun x => x.step.concerns mine k) =
        showings k d' (steps.filter fun st => st.concerns mine k) ∧
      (∀ x ∈ showings k d steps, x.step.concerns mine k = false →
        ∀ f ∈ x.heard, mine f.1 = false) ∧
      Alike mine k (d.run steps) (d'.run (steps.filter fun st => st.concerns mine k)) := by
  induction steps generalizing d d' with
  | nil => exact ⟨rfl, by simp [showings], alike⟩
  | cons st rest ih =>
    have hfirst : ∀ r gone, st = .submit r gone → (mine r.who = true ↔ r.key = k) := by
      rintro r gone rfl
      exact hmine r gone List.mem_cons_self
    have hrest : ∀ r gone, .submit r gone ∈ rest → (mine r.who = true ↔ r.key = k) :=
      fun r gone h => hmine r gone (List.mem_cons_of_mem st h)
    cases hst : st.concerns mine k with
    | true =>
      obtain ⟨hshow, hafter⟩ := alike.step hfirst hst
      obtain ⟨hshows, hunheard, hlast⟩ := ih hafter hrest
      refine ⟨?_, ?_, ?_⟩
      · rw [showings, List.filter_cons_of_pos (by exact hst), List.filter_cons_of_pos hst,
          showings, hshows, hshow]
      · intro x hx hother
        rcases List.mem_cons.mp hx with rfl | hx
        · rw [showing, hst] at hother
          cases hother
        · exact hunheard x hx hother
      · rw [List.filter_cons_of_pos hst, run_cons, run_cons]
        exact hlast
    | false =>
      obtain ⟨hnobody, hafter⟩ := alike.step_other hfirst hst
      obtain ⟨hshows, hunheard, hlast⟩ := ih hafter hrest
      refine ⟨?_, ?_, ?_⟩
      · rw [showings, List.filter_cons_of_neg (by simp [showing, hst]),
          List.filter_cons_of_neg (by simp [hst])]
        exact hshows
      · intro x hx hother
        rcases List.mem_cons.mp hx with rfl | hx
        · exact hnobody
        · exact hunheard x hx hother
      · rw [List.filter_cons_of_neg (by simp [hst]), run_cons]
        exact hlast

/-- The steps of a history that concern `k`. -/
def about (steps : List Step) (k : Key) : List Step :=
  steps.filter fun st => st.concerns (asksFor steps k) k

/-- What the steps of a history that concern `k` show of it. -/
def shownOf (steps : List Step) (k : Key) : List Showing :=
  (showings k {} steps).filter fun x => x.step.concerns (asksFor steps k) k

theorem OneKeyEach.alike (single : OneKeyEach steps) (k : Key) :
    shownOf steps k = showings k {} (about steps k) ∧
      (∀ x ∈ showings k {} steps, x.step.concerns (asksFor steps k) k = false →
        ∀ f ∈ x.heard, asksFor steps k f.1 = false) ∧
      Alike (asksFor steps k) k (run {} steps) (run {} (about steps k)) :=
  (alike_start _ k).run fun _ gone h => single.asksFor_who (mem_requests.mpr ⟨gone, h⟩)

/-- Two histories with the same requests have the same requesters of each key. -/
theorem asksFor_congr {steps' : List Step} (h : ∀ r, r ∈ requests steps ↔ r ∈ requests steps')
    (k : Key) : asksFor steps k = asksFor steps' k := by
  funext t
  rw [Bool.eq_iff_iff, asksFor_iff, asksFor_iff]
  simp only [h]

theorem mem_requests_swap {early late : List Step} {x y : Step} (r : Request Ticket) :
    r ∈ requests (early ++ x :: y :: late) ↔ r ∈ requests (early ++ y :: x :: late) := by
  simp only [mem_requests, List.mem_append, List.mem_cons]
  constructor
  · rintro ⟨gone, h⟩
    exact ⟨gone, by tauto⟩
  · rintro ⟨gone, h⟩
    exact ⟨gone, by tauto⟩

/-- Two requests on different keys are never both about the same key. -/
theorem about_swap {early late : List Step} {a b : Request Ticket} {aGone bGone : Bool}
    (hkey : a.key ≠ b.key) (k : Key) :
    about (early ++ .submit a aGone :: .submit b bGone :: late) k =
      about (early ++ .submit b bGone :: .submit a aGone :: late) k := by
  have hsame : asksFor (early ++ .submit a aGone :: .submit b bGone :: late) k =
      asksFor (early ++ .submit b bGone :: .submit a aGone :: late) k := by
    exact asksFor_congr mem_requests_swap k
  rw [about, about, hsame, List.filter_append, List.filter_append]
  congr 1
  by_cases ha : a.key = k
  · have hb : b.key ≠ k := fun hb => hkey (ha.trans hb.symm)
    simp [Step.concerns, ha, hb]
  · simp [List.filter_cons, Step.concerns, ha]

/-- Whoever is there has asked for something. -/
theorem asked_of_present {t : Ticket} (h : (d.run steps).isPresent t = true) :
    d.isPresent t = true ∨ ∃ k, asksFor steps k t = true := by
  induction steps generalizing d with
  | nil => exact Or.inl h
  | cons st rest ih =>
    rcases ih h with hbefore | ⟨k, hk⟩
    · cases st with
      | submit r gone =>
        change ((d.receive r.who gone).serve r).1.isPresent t = true at hbefore
        rw [isPresent_serve, Bool.and_eq_true, isPresent_receive] at hbefore
        by_cases hwho : r.who = t
        · right
          exact ⟨r.key, asksFor_iff.mpr ⟨r, mem_requests.mpr ⟨gone, List.mem_cons_self⟩, hwho, rfl⟩⟩
        · left
          simpa [hwho] using hbefore.1
      | leave x =>
        change (d.leave x).isPresent t = true at hbefore
        rw [isPresent_leave, Bool.and_eq_true] at hbefore
        exact Or.inl hbefore.1
    · right
      obtain ⟨r, hr, hwho, hkey⟩ := asksFor_iff.mp hk
      obtain ⟨gone, hr⟩ := mem_requests.mp hr
      exact ⟨k, asksFor_iff.mpr
        ⟨r, mem_requests.mpr ⟨gone, List.mem_cons_of_mem st hr⟩, hwho, hkey⟩⟩

/-- A desk is what it shows of each key. -/
theorem run_congr {steps' : List Step} (single : OneKeyEach steps) (single' : OneKeyEach steps')
    (hasks : ∀ k, asksFor steps k = asksFor steps' k)
    (habout : ∀ k, about steps k = about steps' k) : run {} steps = run {} steps' := by
  have hstore : (run {} steps).store = (run {} steps').store := by
    apply Store.ext_of_keys
    · intro k
      rw [(single.alike k).2.2.value, (single'.alike k).2.2.value, habout]
    · intro k
      rw [(single.alike k).2.2.owned, (single'.alike k).2.2.owned, habout]
    · intro k
      rw [(single.alike k).2.2.waiter, (single'.alike k).2.2.waiter, habout]
  have hpending : (run {} steps).pending = (run {} steps').pending := by
    apply Std.ExtTreeSet.ext_contains
    intro t
    change (run {} steps).isPresent t = (run {} steps').isPresent t
    by_cases hasked : ∃ k, asksFor steps k t = true
    · obtain ⟨k, hk⟩ := hasked
      have hk' : asksFor steps' k t = true := hasks k ▸ hk
      rw [(single.alike k).2.2.present t hk, (single'.alike k).2.2.present t hk', habout]
    · -- a ticket that nobody has used is on neither desk
      have hnone : ∀ {l : List Step}, (∀ k, asksFor l k t ≠ true) →
          (run {} l).isPresent t = false := by
        intro l hl
        rw [← Bool.not_eq_true]
        intro h
        rcases asked_of_present h with hstart | ⟨k, hk⟩
        · simp [isPresent] at hstart
        · exact hl k hk
      rw [hnone fun k hk => hasked ⟨k, hk⟩, hnone fun k hk => hasked ⟨k, hasks k ▸ hk⟩]
  calc run {} steps = ⟨(run {} steps).store, (run {} steps).pending⟩ := rfl
    _ = ⟨(run {} steps').store, (run {} steps').pending⟩ := by rw [hstore, hpending]
    _ = run {} steps' := rfl

/-- Whatever is asked for other keys, and whoever has asked for them and leaves, a key shows the
same as without it, and none of its requesters hears anything then. So two requests on different
keys may change places. -/
theorem keys_do_not_interfere (single : OneKeyEach steps) :
    (∀ k, shownOf steps k = showings k {} (about steps k) ∧
      ∀ x ∈ showings k {} steps, x.step.concerns (asksFor steps k) k = false →
        ∀ f ∈ x.heard, asksFor steps k f.1 = false) ∧
    ∀ early a aGone b bGone late,
      steps = early ++ .submit a aGone :: .submit b bGone :: late → a.key ≠ b.key →
        (∀ k, shownOf (early ++ .submit b bGone :: .submit a aGone :: late) k =
          shownOf steps k) ∧
        run {} (early ++ .submit b bGone :: .submit a aGone :: late) = run {} steps := by
  refine ⟨fun k => ⟨(single.alike k).1, (single.alike k).2.1⟩, ?_⟩
  rintro early a aGone b bGone late rfl hkey
  have hmem : ∀ r, r ∈ requests (early ++ .submit a aGone :: .submit b bGone :: late) ↔
      r ∈ requests (early ++ .submit b bGone :: .submit a aGone :: late) := mem_requests_swap
  have single' : OneKeyEach (early ++ .submit b bGone :: .submit a aGone :: late) := by
    intro r hr r' hr'
    exact single r ((hmem r).mpr hr) r' ((hmem r').mpr hr')
  constructor
  · intro k
    rw [(single.alike k).1, (single'.alike k).1, about_swap hkey]
  · exact run_congr single' single (fun k => (asksFor_congr hmem k).symm)
      fun k => (about_swap hkey k).symm

/-- Two owners, and somebody who waits for each of the keys. The one who waits for "a" leaves before
"a" is written. -/
def twoKeySteps : List Step :=
  [.submit ⟨.read, "a", 0⟩ false, .submit ⟨.read, "b", 1⟩ false, .submit ⟨.read, "a", 2⟩ false,
    .submit ⟨.read, "b", 3⟩ false, .leave 2, .submit ⟨.write 5, "b", 4⟩ false,
    .submit ⟨.write 7, "a", 5⟩ false, .submit ⟨.read, "a", 6⟩ true]

theorem keys_do_not_interfere_of_two : OneKeyEach twoKeySteps ∧
    shownOf twoKeySteps "a" = showings "a" {} (about twoKeySteps "a") ∧
    about twoKeySteps "a" =
      [.submit ⟨.read, "a", 0⟩ false, .submit ⟨.read, "a", 2⟩ false, .leave 2,
        .submit ⟨.write 7, "a", 5⟩ false, .submit ⟨.read, "a", 6⟩ true] ∧
    run {} (twoKeySteps.take 5 ++ .submit ⟨.write 7, "a", 5⟩ false ::
      .submit ⟨.write 5, "b", 4⟩ false :: twoKeySteps.drop 7) = run {} twoKeySteps := by
  have single : OneKeyEach twoKeySteps := by
    unfold OneKeyEach
    decide
  obtain ⟨hshown, hswap⟩ := keys_do_not_interfere single
  exact ⟨single, (hshown "a").1, by decide, (hswap _ _ _ _ _ _ rfl (by decide)).2⟩

end Desk

end Custody
