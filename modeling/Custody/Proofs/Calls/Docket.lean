import Custody.Proofs.Coherence.Routing
import Custody.Proofs.Store.Visits

/-!
# What the store has been asked

A client with work in hand has made an inquiry, and so has every caller of the store. An inquiry
is in the store's queue, or parked, or the store is done with it. It ends without a reply in one
case only: it was a read that was parked, and another reader took its place.
-/

namespace Custody

/-- What somebody has asked of the store, and what has been heard of it. Whoever has gone away
hears nothing more. -/
structure Inquiry where
  op : Operation
  key : Key
  slot : Slot Answer
  live : Bool

namespace Inquiry

def Awaits (q : Inquiry) (op : Operation) (k : Key) : Prop :=
  q.op = op ∧ q.key = k ∧ q.slot = .empty

def hear (q : Inquiry) (f : Option Fate) : Inquiry :=
  match f with
  | none => q
  | some f => if q.live then { q with slot := q.slot.fill (f.news.map .store) } else q

variable {q : Inquiry} {f : Option Fate}

@[simp] theorem op_hear : (q.hear f).op = q.op := by
  cases f with
  | none => rfl
  | some f => cases hlive : q.live <;> simp [hear, hlive]

@[simp] theorem key_hear : (q.hear f).key = q.key := by
  cases f with
  | none => rfl
  | some f => cases hlive : q.live <;> simp [hear, hlive]

@[simp] theorem live_hear : (q.hear f).live = q.live := by
  cases f with
  | none => rfl
  | some f => cases hlive : q.live <;> simp [hear, hlive]

/-- Only an inquiry that is live and open takes note of a fate. -/
theorem slot_hear : (q.hear f).slot = q.slot ∨
    (q.live = true ∧ q.slot = .empty ∧ ∃ fate, f = some fate ∧
      (q.hear f).slot = fate.news.map .store) := by
  cases f with
  | none => exact Or.inl rfl
  | some f =>
    by_cases hlive : q.live = true
    · cases hslot : q.slot with
      | empty =>
        refine Or.inr ⟨hlive, rfl, f, rfl, ?_⟩
        rw [hear, if_pos hlive, hslot]
        rfl
      | full a =>
        left
        rw [hear, if_pos hlive, hslot]
        rfl
      | dropped =>
        left
        rw [hear, if_pos hlive, hslot]
        rfl
      | spent =>
        left
        rw [hear, if_pos hlive, hslot]
        rfl
    · left
      rw [hear, if_neg hlive]

/-- An inquiry that is still open was open before, and nothing was heard of it. -/
theorem unheard_of_open (hlive : q.live = true) (hopen : (q.hear f).slot = .empty) :
    f = none ∧ q.slot = .empty := by
  cases f with
  | none => exact ⟨rfl, hopen⟩
  | some f =>
    rw [hear, if_pos hlive] at hopen
    cases hslot : q.slot <;> cases f <;> simp [hslot, Slot.fill, Fate.news, Slot.map] at hopen

end Inquiry

/-! ## Reads that were parked and displaced -/

/-- A read of `k` by `x` was parked among these events. -/
def ParkedRead (es : List Event) (x : Requester) (k : Key) : Prop :=
  ∃ d, .served ⟨.read, k, x⟩ (.parked d) ∈ es

/-- A read of `k` by `x` was parked among these events, and a later read of `k` took its place. -/
def Displaced (es : List Event) (x : Requester) (k : Key) : Prop :=
  ∃ early r late, es = early ++ .served r (.parked (some x)) :: late ∧ r.op = .read ∧
    r.key = k ∧ ParkedRead early x k

def Event.opens : Event → Requester → Bool
  | asked i _, x => x == .client i
  | _, _ => false

/-- The events since `x` last asked for something. A caller asks only once, at the start. -/
def since (es : List Event) (x : Requester) : List Event := es.rtakeWhile fun e => !e.opens x

section

variable {es : List Event} {e : Event} {x : Requester} {k : Key}

theorem not_displaced_nil : ¬ Displaced [] x k := by
  rintro ⟨early, r, late, hes, _⟩
  simp at hes

theorem ParkedRead.snoc (h : ParkedRead es x k) : ParkedRead (es ++ [e]) x k := by
  obtain ⟨d, hd⟩ := h
  exact ⟨d, List.mem_append_left _ hd⟩

theorem displaced_snoc : Displaced (es ++ [e]) x k ↔ Displaced es x k ∨
    (ParkedRead es x k ∧ ∃ r, e = .served r (.parked (some x)) ∧ r.op = .read ∧ r.key = k) := by
  constructor
  · rintro ⟨early, r, late, hes, hop, hkey, hparked⟩
    rcases split_snoc hes with ⟨rfl, he, _⟩ | ⟨rest, rfl, _⟩
    · exact Or.inr ⟨hparked, r, he, hop, hkey⟩
    · exact Or.inl ⟨early, r, rest, rfl, hop, hkey, hparked⟩
  · rintro (⟨early, r, late, rfl, hop, hkey, hparked⟩ | ⟨hparked, r, rfl, hop, hkey⟩)
    · exact ⟨early, r, late ++ [e], by simp, hop, hkey, hparked⟩
    · exact ⟨es, r, [], rfl, hop, hkey, hparked⟩

theorem since_snoc (es : List Event) (e : Event) (x : Requester) :
    since (es ++ [e]) x = if e.opens x then [] else since es x ++ [e] := by
  rw [since, List.rtakeWhile_concat]
  cases e.opens x <;> rfl

theorem since_caller (es : List Event) (c : Nat) : since es (.caller c) = es := by
  rw [since, List.rtakeWhile_eq_self_iff]
  intro e _
  cases e <;> rfl

end

/-! ## Dockets -/

/-- The store, the requests on their way to it, and what each requester has asked. -/
structure Docket where
  store : Store Requester
  queue : List (Request Requester)
  inquiry : Requester → Option Inquiry

namespace Docket

/-- The docket after the store has decided on its first request. -/
def served (d : Docket) (present : Requester → Bool) (r : Request Requester)
    (rest : List (Request Requester)) : Docket where
  store := (d.store.handle present r).1
  queue := rest
  inquiry x := (d.inquiry x).map (·.hear ((d.store.handle present r).2.fateOf r.who x))

/-- The docket after a request has been sent. -/
def opened (d : Docket) (r : Request Requester) : Docket where
  store := d.store
  queue := d.queue ++ [r]
  inquiry := Function.update d.inquiry r.who (some ⟨r.op, r.key, .empty, true⟩)

/-- The docket after client `i` has taken note of what it heard. -/
def closed (d : Docket) (i : Nat) : Docket :=
  { d with inquiry := Function.update d.inquiry (.client i) none }

/-- The docket after caller `c`, whose inquiry is `q`, has gone away. -/
def abandoned (d : Docket) (c : Nat) (q : Inquiry) : Docket :=
  { d with inquiry := Function.update d.inquiry (.caller c) (some ⟨q.op, q.key, .empty, false⟩) }

/-- The docket after some requests have been taken back. -/
def thinned (d : Docket) (rest : List (Request Requester)) : Docket := { d with queue := rest }

structure Traced (d : Docket) (es : List Event) : Prop where
  sound : d.store.Sound
  asked : ∀ r ∈ d.queue, ∃ q, d.inquiry r.who = some q ∧ q.Awaits r.op r.key
  parked : ∀ k x, d.store.waiter k = some x →
    (∃ q, d.inquiry x = some q ∧ q.Awaits .read k) ∧ ParkedRead (since es x) x k
  single : d.queue.Pairwise fun r q => r.who ≠ q.who
  apart : ∀ r ∈ d.queue, ∀ k, d.store.waiter k ≠ some r.who
  pending : ∀ x q, d.inquiry x = some q → q.live = true → q.slot = .empty →
    (∃ r ∈ d.queue, r.who = x) ∨ (q.op = .read ∧ d.store.waiter q.key = some x)
  lost : ∀ x q, d.inquiry x = some q → q.live = true →
    (q.slot = .dropped ↔ q.op = .read ∧ Displaced (since es x) x q.key)
  unspent : ∀ x q, d.inquiry x = some q → q.slot ≠ .spent
  known : ∀ c r, .served r (.parked (some (.caller c))) ∈ es → d.inquiry (.caller c) ≠ none

variable {d : Docket} {es : List Event} {present : Requester → Bool} {r : Request Requester}
  {rest : List (Request Requester)} {x : Requester} {k : Key} {q : Inquiry} {e : Event}

/-! ## The store decides -/

theorem Traced.ne_of_asked (traced : d.Traced es) (hidle : d.inquiry x = none)
    (hr : r ∈ d.queue) : r.who ≠ x := by
  rintro rfl
  obtain ⟨q, hq, _⟩ := traced.asked r hr
  rw [hidle] at hq
  cases hq

theorem Traced.ne_of_parked (traced : d.Traced es) (hidle : d.inquiry x = none)
    {y : Requester} (hy : d.store.waiter k = some y) : y ≠ x := by
  rintro rfl
  obtain ⟨⟨q, hq, _⟩, _⟩ := traced.parked k y hy
  rw [hidle] at hq
  cases hq

/-- Whoever has asked for nothing hears nothing. -/
theorem Traced.unheard_of_idle (traced : d.Traced es) (hidle : d.inquiry x = none)
    (hr : r ∈ d.queue) : (d.store.handle present r).2.fateOf r.who x = none :=
  Store.unheard_of_unconcerned (traced.ne_of_asked hidle hr)
    fun hx => traced.ne_of_parked hidle hx rfl

theorem inquiry_served {q' : Inquiry} :
    (d.served present r rest).inquiry x = some q' ↔ ∃ q, d.inquiry x = some q ∧
      q.hear ((d.store.handle present r).2.fateOf r.who x) = q' :=
  Option.map_eq_some_iff

/-- Whoever hears nothing has the same inquiry as before. -/
theorem inquiry_of_unheard (hq : d.inquiry x = some q)
    (hunheard : (d.store.handle present r).2.fateOf r.who x = none) :
    (d.served present r rest).inquiry x = some q := by
  refine inquiry_served.mpr ⟨q, hq, ?_⟩
  rw [hunheard]
  rfl

theorem since_served (es : List Event) (r : Request Requester) (v : Verdict Requester)
    (x : Requester) : since (es ++ [.served r v]) x = since es x ++ [.served r v] := by
  rw [since_snoc]
  rfl

/-- Those still in the queue hear nothing. -/
theorem Traced.unheard_of_queued (traced : d.Traced es) (hqueue : d.queue = r :: rest)
    {p : Request Requester} (hp : p ∈ rest) :
    (d.store.handle present r).2.fateOf r.who p.who = none := by
  have hfirst := (List.pairwise_cons.mp (hqueue ▸ traced.single)).1
  have hqueued : p ∈ d.queue := by
    rw [hqueue]
    exact List.mem_cons_of_mem r hp
  exact Store.unheard_of_unconcerned (hfirst p hp) (traced.apart p hqueued r.key)

/-- Those who are parked afterwards hear nothing. -/
theorem Traced.unheard_of_parked (traced : d.Traced es) (hr : r ∈ d.queue)
    (hx : (d.store.handle present r).1.waiter k = some x) :
    (d.store.handle present r).2.fateOf r.who x = none := by
  rcases Store.waiter_cases hx with ⟨hbefore, hsame⟩ | ⟨rfl, rfl, _, hv⟩
  · have hwho : r.who ≠ x := by
      rintro rfl
      exact traced.apart r hr k hbefore
    refine Store.unheard_of_kept hwho (fun hother => ?_) hsame
    obtain ⟨⟨q, hq, _, hk, _⟩, _⟩ := traced.parked k x hbefore
    obtain ⟨⟨q', hq', _, hk', _⟩, _⟩ := traced.parked r.key x hother
    obtain rfl := Option.some.inj (hq.symm.trans hq')
    rw [← hk, ← hk']
  · rw [hv, Verdict.fateOf_parked, if_neg (traced.apart r hr r.key)]

theorem Traced.parked_served (traced : d.Traced es) (hr : r ∈ d.queue)
    (hx : (d.store.handle present r).1.waiter k = some x) :
    (∃ q, (d.served present r rest).inquiry x = some q ∧ q.Awaits .read k) ∧
      ParkedRead (since (es ++ [.served r (d.store.handle present r).2]) x) x k := by
  have hunheard := traced.unheard_of_parked hr hx
  rw [since_served]
  rcases Store.waiter_cases hx with ⟨hbefore, _⟩ | ⟨rfl, rfl, hop, hv⟩
  · obtain ⟨⟨q, hq, hawaits⟩, hparked⟩ := traced.parked k x hbefore
    exact ⟨⟨q, inquiry_of_unheard hq hunheard, hawaits⟩, hparked.snoc⟩
  · obtain ⟨q, hq, hawaits⟩ := traced.asked r hr
    refine ⟨⟨q, inquiry_of_unheard hq hunheard, hop ▸ hawaits⟩, d.store.waiter r.key, ?_⟩
    rw [hv, ← hop]
    exact List.mem_append_right _ (List.mem_singleton.mpr rfl)

/-- An inquiry that is still open is still in the queue, or it is parked. -/
theorem Traced.pending_served (traced : d.Traced es) (hqueue : d.queue = r :: rest)
    (hq : d.inquiry x = some q) (hlive : q.live = true) (hopen : q.slot = .empty)
    (hpresent : present x = true)
    (hunheard : (d.store.handle present r).2.fateOf r.who x = none) :
    (∃ p ∈ rest, p.who = x) ∨
      (q.op = .read ∧ (d.store.handle present r).1.waiter q.key = some x) := by
  rcases traced.pending x q hq hlive hopen with ⟨p, hp, rfl⟩ | ⟨hop, hwaits⟩
  · obtain ⟨q', hq', hop, hkey, _⟩ := traced.asked p hp
    obtain rfl := Option.some.inj (hq.symm.trans hq')
    rw [hqueue] at hp
    rcases List.mem_cons.mp hp with rfl | hp
    · obtain ⟨y, hv⟩ := Store.parked_of_unheard hunheard
      refine Or.inr ⟨hop.trans (Store.op_of_parked hv).1, ?_⟩
      rw [hkey, Store.waiter_handle, hv]
      simp
    · exact Or.inl ⟨p, hp, rfl⟩
  · exact Or.inr ⟨hop, Store.waits_of_unheard hwaits hpresent hunheard⟩

/-- After the verdict an inquiry is lost just when it was lost before or has been displaced now. -/
theorem Traced.lost_served (traced : d.Traced es) (hq : d.inquiry x = some q)
    (hlive : q.live = true) :
    (q.hear ((d.store.handle present r).2.fateOf r.who x)).slot = .dropped ↔
      q.op = .read ∧
        Displaced (since (es ++ [.served r (d.store.handle present r).2]) x) x q.key := by
  rw [since_served, displaced_snoc]
  by_cases hv : (d.store.handle present r).2 = .parked (some x)
  · -- another read has taken the place of this one
    obtain ⟨hop, _, hwaits⟩ := Store.op_of_parked hv
    obtain ⟨⟨q', hq', hread, hkey, hopen⟩, hparked⟩ := traced.parked r.key x hwaits.symm
    obtain rfl := Option.some.inj (hq.symm.trans hq')
    have hdropped : (q.hear ((d.store.handle present r).2.fateOf r.who x)).slot = .dropped := by
      rw [Store.discarded_iff.mpr hv, Inquiry.hear, if_pos hlive, hopen]
      rfl
    refine iff_of_true hdropped ⟨hread, Or.inr ⟨?_, r, by rw [hv], hop, hkey.symm⟩⟩
    rw [hkey]
    exact hparked
  · have hsame : (q.hear ((d.store.handle present r).2.fateOf r.who x)).slot = .dropped ↔
        q.slot = .dropped := by
      rcases q.slot_hear with hslot | ⟨_, hopen, fate, hfate, hslot⟩
      · rw [hslot]
      · cases fate with
        | answered a => simp [hslot, hopen, Fate.news, Slot.map]
        | discarded => exact absurd (Store.discarded_iff.mp hfate) hv
    rw [hsame, traced.lost x q hq hlive]
    constructor
    · rintro ⟨hop, hdisplaced⟩
      exact ⟨hop, Or.inl hdisplaced⟩
    · rintro ⟨hop, hdisplaced | ⟨_, r', he, _⟩⟩
      · exact ⟨hop, hdisplaced⟩
      · exact absurd (Event.served.inj he).2 hv

theorem Traced.unspent_served (traced : d.Traced es) (hq : d.inquiry x = some q)
    (f : Option Fate) : (q.hear f).slot ≠ .spent := by
  rcases q.slot_hear with hslot | ⟨_, _, fate, _, hslot⟩
  · rw [hslot]
    exact traced.unspent x q hq
  · rw [hslot]
    cases fate with
    | answered a => simp [Fate.news, Slot.map]
    | discarded => simp [Fate.news, Slot.map]

theorem Traced.known_served (traced : d.Traced es) {c : Nat} {p : Request Requester}
    (hp : .served p (.parked (some (.caller c))) ∈
      es ++ [.served r (d.store.handle present r).2]) :
    (d.served present r rest).inquiry (.caller c) ≠ none := by
  have hbefore : d.inquiry (.caller c) ≠ none := by
    rcases List.mem_append.mp hp with hp | hp
    · exact traced.known c p hp
    · obtain ⟨_, hv⟩ := Event.served.inj (List.mem_singleton.mp hp)
      obtain ⟨⟨q, hq, _⟩, _⟩ := traced.parked r.key _ (Store.op_of_parked hv.symm).2.2.symm
      simp [hq]
  simpa [served] using hbefore

theorem traced_served (traced : d.Traced es) (hqueue : d.queue = r :: rest)
    (hpresent : ∀ x q, d.inquiry x = some q → q.live = true → q.slot = .empty →
      present x = true) :
    (d.served present r rest).Traced (es ++ [.served r (d.store.handle present r).2]) := by
  have hr : r ∈ d.queue := by
    rw [hqueue]
    exact List.mem_cons_self
  have hrest : ∀ p ∈ rest, p ∈ d.queue := by
    intro p hp
    rw [hqueue]
    exact List.mem_cons_of_mem r hp
  obtain ⟨hfirst, hsingle⟩ := List.pairwise_cons.mp (hqueue ▸ traced.single)
  refine ⟨traced.sound.handle, ?_, fun k x hx => traced.parked_served hr hx, hsingle, ?_, ?_, ?_,
    ?_, fun c p hp => traced.known_served hp⟩
  · intro p hp
    obtain ⟨q, hq, hawaits⟩ := traced.asked p (hrest p hp)
    exact ⟨q, inquiry_of_unheard hq (traced.unheard_of_queued hqueue hp), hawaits⟩
  · intro p hp k hk
    rcases Store.waiter_cases hk with ⟨hbefore, _⟩ | ⟨_, hwho, _⟩
    · exact traced.apart p (hrest p hp) k hbefore
    · exact hfirst p hp hwho
  · intro x q' hq' hlive hopen
    obtain ⟨q, hq, rfl⟩ := inquiry_served.mp hq'
    rw [Inquiry.live_hear] at hlive
    obtain ⟨hunheard, hslot⟩ := Inquiry.unheard_of_open hlive hopen
    rw [Inquiry.op_hear, Inquiry.key_hear]
    exact traced.pending_served hqueue hq hlive hslot (hpresent x q hq hlive hslot) hunheard
  · intro x q' hq' hlive
    obtain ⟨q, hq, rfl⟩ := inquiry_served.mp hq'
    rw [Inquiry.op_hear, Inquiry.key_hear]
    exact traced.lost_served hq (by rwa [Inquiry.live_hear] at hlive)
  · intro x q' hq'
    obtain ⟨q, hq, rfl⟩ := inquiry_served.mp hq'
    exact traced.unspent_served hq _

/-! ## The other steps -/

/-- An event that is no verdict changes nothing, unless it is a new request. -/
theorem Traced.log (traced : d.Traced es) (hserved : ∀ r v, e ≠ .served r v)
    (hidle : ∀ x, e.opens x = true → d.inquiry x = none) : d.Traced (es ++ [e]) := by
  have hsince : ∀ x q, d.inquiry x = some q → since (es ++ [e]) x = since es x ++ [e] := by
    intro x q hq
    rw [since_snoc, if_neg]
    intro hopens
    rw [hidle x hopens] at hq
    cases hq
  refine { traced with parked := ?_, lost := ?_, known := ?_ }
  · intro k x hx
    obtain ⟨⟨q, hq, hawaits⟩, hparked⟩ := traced.parked k x hx
    rw [hsince x q hq]
    exact ⟨⟨q, hq, hawaits⟩, hparked.snoc⟩
  · intro x q hq hlive
    have hnow : ¬ ∃ r, e = .served r (.parked (some x)) ∧ r.op = .read ∧ r.key = q.key := by
      rintro ⟨r, he, _⟩
      exact hserved _ _ he
    rw [traced.lost x q hq hlive, hsince x q hq, displaced_snoc]
    simp only [hnow, and_false, or_false]
  · intro c r hr
    rcases List.mem_append.mp hr with hr | hr
    · exact traced.known c r hr
    · exact absurd (List.mem_singleton.mp hr).symm (hserved _ _)

/-- Whoever has asked for nothing may ask. -/
theorem Traced.opened (traced : d.Traced es) (hidle : d.inquiry r.who = none)
    (hfresh : ¬ Displaced (since es r.who) r.who r.key) : (d.opened r).Traced es := by
  have hself : (d.opened r).inquiry r.who = some ⟨r.op, r.key, .empty, true⟩ :=
    Function.update_self _ _ _
  have hother : ∀ y, y ≠ r.who → (d.opened r).inquiry y = d.inquiry y := fun y hy =>
    Function.update_of_ne hy _ _
  refine ⟨traced.sound, ?_, ?_, ?_, ?_, ?_, ?_, ?_, ?_⟩
  · intro p hp
    rcases List.mem_append.mp hp with hp | hp
    · obtain ⟨q, hq, hawaits⟩ := traced.asked p hp
      exact ⟨q, (hother _ (traced.ne_of_asked hidle hp)).trans hq, hawaits⟩
    · rw [List.mem_singleton.mp hp]
      exact ⟨_, hself, rfl, rfl, rfl⟩
  · intro k y hy
    obtain ⟨⟨q, hq, hawaits⟩, hparked⟩ := traced.parked k y hy
    exact ⟨⟨q, (hother y (traced.ne_of_parked hidle hy)).trans hq, hawaits⟩, hparked⟩
  · refine List.pairwise_append.mpr ⟨traced.single, List.pairwise_singleton _ _, ?_⟩
    intro p hp p' hp'
    rw [List.mem_singleton.mp hp']
    exact traced.ne_of_asked hidle hp
  · intro p hp k hk
    rcases List.mem_append.mp hp with hp | hp
    · exact traced.apart p hp k hk
    · rw [List.mem_singleton.mp hp] at hk
      exact traced.ne_of_parked hidle hk rfl
  · intro y q hq hlive hopen
    by_cases hy : y = r.who
    · exact Or.inl ⟨r, List.mem_append_right _ (List.mem_singleton.mpr rfl), hy.symm⟩
    · rw [hother y hy] at hq
      rcases traced.pending y q hq hlive hopen with ⟨p, hp, hwho⟩ | hwaits
      · exact Or.inl ⟨p, List.mem_append_left _ hp, hwho⟩
      · exact Or.inr hwaits
  · intro y q hq hlive
    by_cases hy : y = r.who
    · subst hy
      rw [hself] at hq
      obtain rfl := Option.some.inj hq
      simp [hfresh]
    · rw [hother y hy] at hq
      exact traced.lost y q hq hlive
  · intro y q hq
    by_cases hy : y = r.who
    · subst hy
      rw [hself] at hq
      obtain rfl := Option.some.inj hq
      simp
    · rw [hother y hy] at hq
      exact traced.unspent y q hq
  · intro c p hp
    by_cases hc : .caller c = r.who
    · rw [hc, hself]
      simp
    · rw [hother _ hc]
      exact traced.known c p hp

/-- A client that has heard something is neither in the queue nor parked. -/
theorem Traced.closed {i : Nat} (traced : d.Traced es)
    (hheard : ∀ q, d.inquiry (.client i) = some q → q.slot ≠ .empty) :
    (d.closed i).Traced es := by
  have hother : ∀ y, y ≠ .client i → (d.closed i).inquiry y = d.inquiry y := fun y hy =>
    Function.update_of_ne hy _ _
  have hnone : ∀ y q, (d.closed i).inquiry y = some q → d.inquiry y = some q := by
    intro y q hq
    by_cases hy : y = .client i
    · subst hy
      simp [Docket.closed] at hq
    · rwa [hother y hy] at hq
  have hkept : ∀ y q op k, d.inquiry y = some q → q.Awaits op k →
      (d.closed i).inquiry y = some q := by
    rintro y q op k hq ⟨_, _, hopen⟩
    rw [hother y, hq]
    rintro rfl
    exact hheard q hq hopen
  refine ⟨traced.sound, ?_, ?_, traced.single, traced.apart, ?_, ?_, ?_, ?_⟩
  · intro p hp
    obtain ⟨q, hq, hawaits⟩ := traced.asked p hp
    exact ⟨q, hkept _ _ _ _ hq hawaits, hawaits⟩
  · intro k y hy
    obtain ⟨⟨q, hq, hawaits⟩, hparked⟩ := traced.parked k y hy
    exact ⟨⟨q, hkept _ _ _ _ hq hawaits, hawaits⟩, hparked⟩
  · exact fun y q hq => traced.pending y q (hnone y q hq)
  · exact fun y q hq => traced.lost y q (hnone y q hq)
  · exact fun y q hq => traced.unspent y q (hnone y q hq)
  · intro c p hp
    rw [hother _ (by simp)]
    exact traced.known c p hp

/-- The store may still decide on what a caller that has gone away has asked. -/
theorem Traced.abandoned {c : Nat} (traced : d.Traced es) (hq : d.inquiry (.caller c) = some q) :
    (d.abandoned c q).Traced es := by
  have hself : (d.abandoned c q).inquiry (.caller c) = some ⟨q.op, q.key, .empty, false⟩ :=
    Function.update_self _ _ _
  have hother : ∀ y, y ≠ .caller c → (d.abandoned c q).inquiry y = d.inquiry y :=
    fun y hy => Function.update_of_ne hy _ _
  have hawait : ∀ y op k, (∃ p, d.inquiry y = some p ∧ p.Awaits op k) →
      ∃ p, (d.abandoned c q).inquiry y = some p ∧ p.Awaits op k := by
    rintro y op k ⟨p, hp, hop, hkey, hopen⟩
    by_cases hy : y = .caller c
    · subst hy
      obtain rfl := Option.some.inj (hq.symm.trans hp)
      exact ⟨_, hself, hop, hkey, rfl⟩
    · exact ⟨p, (hother y hy).trans hp, hop, hkey, hopen⟩
  have hlive : ∀ y p, (d.abandoned c q).inquiry y = some p → p.live = true →
      d.inquiry y = some p := by
    intro y p hp hlive
    by_cases hy : y = .caller c
    · subst hy
      rw [hself] at hp
      obtain rfl := Option.some.inj hp
      cases hlive
    · exact (hother y hy).symm.trans hp
  refine ⟨traced.sound, ?_, ?_, traced.single, traced.apart, ?_, ?_, ?_, ?_⟩
  · exact fun p hp => hawait _ _ _ (traced.asked p hp)
  · exact fun k y hy => ⟨hawait y .read k (traced.parked k y hy).1, (traced.parked k y hy).2⟩
  · exact fun y p hp hplive => traced.pending y p (hlive y p hp hplive) hplive
  · exact fun y p hp hplive => traced.lost y p (hlive y p hp hplive) hplive
  · intro y p hp
    by_cases hy : y = .caller c
    · subst hy
      rw [hself] at hp
      obtain rfl := Option.some.inj hp
      simp
    · exact traced.unspent y p ((hother y hy).symm.trans hp)
  · intro c' p hp
    by_cases hc : Requester.caller c' = .caller c
    · rw [hc, hself]
      simp
    · rw [hother _ hc]
      exact traced.known c' p hp

/-- Only those that have gone away may take their requests back. -/
theorem Traced.thinned (traced : d.Traced es) (hrest : rest.Sublist d.queue)
    (hkeep : ∀ p ∈ d.queue, ∀ q, d.inquiry p.who = some q → q.live = true → p ∈ rest) :
    (d.thinned rest).Traced es :=
  { traced with
    asked := fun p hp => traced.asked p (hrest.subset hp)
    single := traced.single.sublist hrest
    apart := fun p hp => traced.apart p (hrest.subset hp)
    pending := by
      intro y q hq hlive hopen
      rcases traced.pending y q hq hlive hopen with ⟨p, hp, rfl⟩ | hwaits
      · exact Or.inl ⟨p, hkeep p hp q hq hlive, rfl⟩
      · exact Or.inr hwaits }

/-- When nobody waits for anything, the store may stop. -/
theorem Traced.emptied (traced : d.Traced es)
    (hdone : ∀ x q, d.inquiry x = some q → q.live = true → q.slot ≠ .empty) :
    Traced ⟨{}, [], d.inquiry⟩ es where
  sound := Store.sound_empty
  asked := by simp
  parked := by simp [Store.waiter]
  single := List.Pairwise.nil
  apart := by simp
  pending x q hq hlive hopen := absurd hopen (hdone x q hq hlive)
  lost := traced.lost
  unspent := traced.unspent
  known := traced.known

theorem traced_start : Traced ⟨{}, [], fun _ => none⟩ [] where
  sound := Store.sound_empty
  asked := by simp
  parked := by simp [Store.waiter]
  single := List.Pairwise.nil
  apart := by simp
  pending := by simp
  lost := by simp
  unspent := by simp
  known := by simp

end Docket

end Custody
