import Custody.Proofs.Store.Visits

/-!
# One fate for each request

The store is done with a request when it has answered it, let it go for another reader, or found
nobody there to hand the key to. It is done at once with every request but a read of an owned
key. Such a read waits for the next read or write of its key, and that one alone decides its fate.
-/

namespace Custody

variable {ρ : Type}

def Request.Uses (r : Request ρ) (k : Key) : Prop :=
  r.key = k ∧ (r.op = .read ∨ ∃ v, r.op = .write v)

namespace Verdict

/-- Those the store is done with after a verdict, and what it sends them: nothing to a waiter that
is gone when the key should be handed over. -/
def closes (who : ρ) (v : Verdict ρ) : List (ρ × Option Fate) :=
  (v.fates who).map (fun f => (f.1, some f.2)) ++ match v with
    | .accepted _ (.vanished next) => [(next, none)]
    | _ => []

/-- How a verdict on a request of `who` is the end of a request of `x`. -/
def ends [DecidableEq ρ] (who x : ρ) (v : Verdict ρ) : List (Option Fate) :=
  ((v.closes who).filter (·.1 = x)).map (·.2)

/-- The waiter whose place a verdict clears, and what it is sent. -/
def evicts : Verdict ρ → Option (ρ × Option Fate)
  | parked (some earlier) => some (earlier, some .discarded)
  | accepted v (.passed next) => some (next, some (.answered (.granted v)))
  | accepted _ (.vanished next) => some (next, none)
  | _ => none

theorem closes_eq (who : ρ) (v : Verdict ρ) : v.closes who =
    (v.reply?.map fun reply => (who, some (.answered reply))).toList ++ v.evicts.toList := by
  cases v with
  | granted v => rfl
  | parked d => cases d <;> rfl
  | accepted v n => cases n <;> rfl
  | refused => rfl

end Verdict

namespace Store

/-- In which steps, the first of which has number `n`, the store is done with a request of `x`, and
what it sends. -/
def endings [DecidableEq ρ] (n : Nat) (x : ρ) :
    List (Request ρ × Verdict ρ) → List (Nat × Option Fate)
  | [] => []
  | e :: rest => (e.2.ends e.1.who x).map (n, ·) ++ endings (n + 1) x rest

/-- Each request is made by a requester of its own. -/
def Distinct (visits : List (Visit ρ)) : Prop := (visits.map fun v => v.request.who).Nodup

def fatesOf [DecidableEq ρ] (visits : List (Visit ρ)) (x : ρ) : List (Nat × Option Fate) :=
  endings 0 x (record {} visits)

/-- `x` is not parked anywhere. -/
def Absent (s : Store ρ) (x : ρ) : Prop := ∀ k, s.waiter k ≠ some x

/-- `x` is parked behind `k`, and nowhere else. -/
structure Parks (s : Store ρ) (x : ρ) (k : Key) : Prop where
  waits : s.waiter k = some x
  only : ∀ k', s.waiter k' = some x → k' = k

variable [DecidableEq ρ] {present : ρ → Bool} {s : Store ρ} {r : Request ρ} {x : ρ} {k : Key}
  {visits late : List (Visit ρ)} {v : Visit ρ}

theorem endings_append (n : Nat) (x : ρ) (early late : List (Request ρ × Verdict ρ)) :
    endings n x (early ++ late) = endings n x early ++ endings (n + early.length) x late := by
  induction early generalizing n with
  | nil => simp [endings]
  | cons e rest ih =>
    have hlen : n + 1 + rest.length = n + (e :: rest).length := by
      rw [List.length_cons]
      omega
    rw [List.cons_append, endings, endings, ih, hlen, List.append_assoc]

/-! ## One visit -/

omit [DecidableEq ρ] in
/-- Only the waiter behind the key of a request can lose its place. -/
theorem waiter_of_evicts {f : Option Fate} (h : (s.handle present r).2.evicts = some (x, f)) :
    s.waiter r.key = some x := by
  cases hv : (s.handle present r).2 with
  | granted v =>
    rw [hv] at h
    cases h
  | parked d =>
    obtain ⟨_, _, hd⟩ := op_of_parked hv
    rw [hv] at h
    cases d with
    | none => cases h
    | some d =>
      obtain ⟨rfl, _⟩ := Prod.mk.inj (Option.some.inj h)
      exact hd.symm
  | accepted v n =>
    obtain ⟨_, _, hn⟩ := op_of_accepted hv
    rw [hv] at h
    cases n with
    | freed => cases h
    | passed next =>
      obtain ⟨rfl, _⟩ := Prod.mk.inj (Option.some.inj h)
      exact (waiter_of_passed hn.symm).1
    | vanished next =>
      obtain ⟨rfl, _⟩ := Prod.mk.inj (Option.some.inj h)
      exact waiter_of_vanished hn.symm
  | refused =>
    rw [hv] at h
    cases h

/-- Whoever does not wait for the key of a request is not evicted by it. -/
theorem filter_evicts (hother : s.waiter r.key ≠ some x) :
    (s.handle present r).2.evicts.toList.filter (·.1 = x) = [] := by
  apply List.filter_eq_nil_iff.mpr
  rintro ⟨y, f⟩ hy hyx
  obtain rfl : y = x := by simpa using hyx
  exact hother (waiter_of_evicts (Option.mem_toList.mp hy))

/-- Its own requester, who is not parked yet, is done with a request when it hears at once. -/
theorem ends_own (habsent : s.waiter r.key ≠ some r.who) :
    (s.handle present r).2.ends r.who r.who =
      ((s.handle present r).2.reply?.map fun reply => some (.answered reply)).toList := by
  rw [Verdict.ends, Verdict.closes_eq, List.filter_append, filter_evicts habsent]
  cases (s.handle present r).2.reply? <;> simp

/-- Of all others, a verdict is the end only for the one who waits for its key. -/
theorem ends_other (hwho : r.who ≠ x) (hother : s.waiter r.key ≠ some x) :
    (s.handle present r).2.ends r.who x = [] := by
  rw [Verdict.ends, Verdict.closes_eq, List.filter_append, filter_evicts hother]
  cases (s.handle present r).2.reply? <;> simp [hwho]

omit [DecidableEq ρ] in
theorem Absent.handle (habsent : Absent s x) (hwho : r.who ≠ x) :
    Absent (s.handle present r).1 x := by
  intro k hk
  rcases waiter_cases hk with ⟨hbefore, _⟩ | ⟨_, hx, _⟩
  · exact habsent k hbefore
  · exact hwho hx

omit [DecidableEq ρ] in
/-- Whoever leaves its place is parked nowhere. -/
theorem Parks.absent (parks : Parks s x k) (hwho : r.who ≠ x)
    (hleft : (s.handle present r).1.waiter k ≠ some x) : Absent (s.handle present r).1 x := by
  intro k' hk'
  rcases waiter_cases hk' with ⟨hbefore, _⟩ | ⟨_, hx, _⟩
  · obtain rfl := parks.only k' hbefore
    exact hleft hk'
  · exact hwho hx

/-- A request that does not use the key leaves its waiter where it is, and unanswered. -/
theorem Parks.stays (parks : Parks s x k) (present : ρ → Bool) (hwho : r.who ≠ x)
    (hunused : ¬ r.Uses k) :
    Parks (s.handle present r).1 x k ∧ (s.handle present r).2.ends r.who x = [] := by
  have hwaits : (s.handle present r).1.waiter k = some x := by
    rw [waiter_handle]
    cases hv : (s.handle present r).2 with
    | granted v => exact parks.waits
    | parked d =>
      have hkey : r.key ≠ k := fun hkey => hunused ⟨hkey, Or.inl (op_of_parked hv).1⟩
      simpa [hkey] using parks.waits
    | accepted v n =>
      have hkey : r.key ≠ k := fun hkey => hunused ⟨hkey, Or.inr ⟨v, (op_of_accepted hv).1⟩⟩
      simpa [hkey] using parks.waits
    | refused => exact parks.waits
  refine ⟨⟨hwaits, ?_⟩, ?_⟩
  · intro k' hk'
    rcases waiter_cases hk' with ⟨hbefore, _⟩ | ⟨_, hx, _⟩
    · exact parks.only k' hbefore
    · exact absurd hx hwho
  · by_cases hkey : r.key = k
    · -- the key is the same, so the operation is one that the store does not know
      cases hop : r.op with
      | read => exact absurd ⟨hkey, Or.inl hop⟩ hunused
      | write v => exact absurd ⟨hkey, Or.inr ⟨v, hop⟩⟩ hunused
      | unsupported name =>
        rw [verdict_unsupported hop]
        simp [Verdict.ends, Verdict.closes, Verdict.fates, hwho]
    · exact ends_other hwho fun hother => hkey (parks.only _ hother)

/-- Another reader of the key takes its waiter's place. -/
theorem Parks.displaced (parks : Parks s x r.key) (sound : Sound s) (present : ρ → Bool)
    (hop : r.op = .read) :
    (s.handle present r).2.ends r.who x = [some .discarded] ∧
      (s.handle present r).1.waiter r.key = some r.who := by
  have hv : (s.handle present r).2 = .parked (some x) := by
    rw [verdict_read hop, if_pos (sound.owned _ x parks.waits), parks.waits]
  constructor
  · rw [hv]
    simp [Verdict.ends, Verdict.closes, Verdict.fates]
  · rw [waiter_handle, hv]
    simp

/-- A write of the key hands it to the waiter, or frees it when the waiter is gone. -/
theorem Parks.released {u : Value} (parks : Parks s x r.key) (sound : Sound s)
    (present : ρ → Bool) (hwho : r.who ≠ x) (hop : r.op = .write u) :
    (s.handle present r).2.ends r.who x =
        [if present x then some (.answered (.granted u)) else none] ∧
      (s.handle present r).1.waiter r.key = none ∧
      (s.handle present r).1.isOwned r.key = present x := by
  have hv := sound.accepts present hop parks.waits
  cases hpresent : present x with
  | true =>
    simp only [hpresent, if_true] at hv
    refine ⟨?_, ?_, ?_⟩
    · rw [hv]
      simp [Verdict.ends, Verdict.closes, Verdict.fates, hwho]
    · rw [waiter_handle, hv]
      simp
    · rw [isOwned_handle, hv]
      simp
  | false =>
    simp only [hpresent, Bool.false_eq_true, if_false] at hv
    refine ⟨?_, ?_, ?_⟩
    · rw [hv]
      simp [Verdict.ends, Verdict.closes, Verdict.fates, hwho]
    · rw [waiter_handle, hv]
      simp
    · rw [isOwned_handle, hv]
      simp

/-! ## Many visits -/

/-- Whoever is parked nowhere and asks for nothing hears nothing. -/
theorem Absent.after (habsent : Absent s x) (hwho : ∀ v ∈ visits, v.request.who ≠ x) (n : Nat) :
    Absent (s.after visits) x ∧ endings n x (s.record visits) = [] := by
  induction visits generalizing s n with
  | nil => exact ⟨habsent, rfl⟩
  | cons v rest ih =>
    have hv : v.request.who ≠ x := hwho v List.mem_cons_self
    have hrest : ∀ w ∈ rest, w.request.who ≠ x := fun w hw => hwho w (List.mem_cons_of_mem v hw)
    obtain ⟨hlast, hlater⟩ := ih (habsent.handle hv) hrest (n + 1)
    refine ⟨hlast, ?_⟩
    rw [record_cons, endings, ends_other hv (habsent _), hlater]
    rfl

theorem Parks.after (parks : Parks s x k) (hwho : ∀ v ∈ visits, v.request.who ≠ x)
    (hunused : ∀ v ∈ visits, ¬ v.request.Uses k) (n : Nat) :
    Parks (s.after visits) x k ∧ endings n x (s.record visits) = [] := by
  induction visits generalizing s n with
  | nil => exact ⟨parks, rfl⟩
  | cons v rest ih =>
    obtain ⟨hparks, hends⟩ := parks.stays v.present
      (hwho v List.mem_cons_self) (hunused v List.mem_cons_self)
    obtain ⟨hlast, hlater⟩ := ih hparks (fun w hw => hwho w (List.mem_cons_of_mem v hw))
      (fun w hw => hunused w (List.mem_cons_of_mem v hw)) (n + 1)
    refine ⟨hlast, ?_⟩
    rw [record_cons, endings, hends, hlater]
    rfl

/-- What the store says of `x` when it asks once, in the middle, and is parked nowhere before. -/
theorem fatesOf_split {early : List (Visit ρ)}
    (distinct : Distinct (early ++ v :: late)) :
    Absent (reached early) v.request.who ∧ (∀ u ∈ late, u.request.who ≠ v.request.who) ∧
      fatesOf (early ++ v :: late) v.request.who =
        (((reached early).handle v.present v.request).2.ends v.request.who v.request.who).map
          (early.length, ·) ++
        endings (early.length + 1) v.request.who
          (((reached early).handle v.present v.request).1.record late) := by
  rw [Distinct, List.map_append, List.map_cons, List.nodup_append] at distinct
  obtain ⟨_, hlate, hearly⟩ := distinct
  have habsent : Absent ({} : Store ρ) v.request.who := by
    intro k
    simp [waiter]
  have hbefore : ∀ u ∈ early, u.request.who ≠ v.request.who := fun u hu =>
    hearly _ (List.mem_map_of_mem hu) _ List.mem_cons_self
  obtain ⟨hreached, hnone⟩ := habsent.after hbefore 0
  refine ⟨hreached, ?_, ?_⟩
  · intro u hu hwho
    exact (List.nodup_cons.mp hlate).1 (hwho ▸ List.mem_map_of_mem hu)
  · rw [fatesOf, record_append, endings_append, hnone, length_record, Nat.zero_add, record_cons,
      endings]
    rfl

omit [DecidableEq ρ] in
theorem reply_of_free (present : ρ → Bool) (hfree : r.op = .read → s.isOwned r.key = false) :
    ∃ reply, (s.handle present r).2.reply? = some reply := by
  cases hop : r.op with
  | read =>
    rw [verdict_read hop, hfree hop]
    exact ⟨_, rfl⟩
  | write u =>
    rw [verdict_write hop]
    by_cases hvalue : (s.value r.key).isSome
    · rw [if_pos hvalue]
      exact ⟨_, rfl⟩
    · rw [if_neg hvalue]
      exact ⟨_, rfl⟩
  | unsupported name =>
    rw [verdict_unsupported hop]
    exact ⟨_, rfl⟩

omit [DecidableEq ρ] in
/-- Whoever is answered at once is parked nowhere. -/
theorem Absent.answered {reply : StoreReply} (habsent : Absent s r.who)
    (hreply : (s.handle present r).2.reply? = some reply) :
    Absent (s.handle present r).1 r.who := by
  intro k hk
  rcases waiter_cases hk with ⟨hbefore, _⟩ | ⟨_, _, _, hv⟩
  · exact habsent k hbefore
  · rw [hv] at hreply
    cases hreply

/-- A read of an owned key is parked, and not over. -/
theorem Absent.parks (habsent : Absent s r.who) (present : ρ → Bool) (hop : r.op = .read)
    (howned : s.isOwned r.key = true) :
    Parks (s.handle present r).1 r.who r.key ∧
      (s.handle present r).2.ends r.who r.who = [] := by
  have hv : (s.handle present r).2 = .parked (s.waiter r.key) := by
    rw [verdict_read hop, if_pos howned]
  refine ⟨⟨?_, ?_⟩, ?_⟩
  · rw [waiter_handle, hv]
    simp
  · intro k hk
    rcases waiter_cases hk with ⟨hbefore, _⟩ | ⟨hkey, _⟩
    · exact absurd hbefore (habsent k)
    · exact hkey.symm
  · rw [ends_own (habsent _), hv]
    rfl

theorem answered_at_once {early : List (Visit ρ)}
    (distinct : Distinct (early ++ v :: late))
    (hfree : v.request.op = .read → (reached early).isOwned v.request.key = false) :
    ∃ reply, fatesOf (early ++ v :: late) v.request.who =
      [(early.length, some (.answered reply))] := by
  obtain ⟨habsent, hlate, hfates⟩ := fatesOf_split distinct
  obtain ⟨reply, hreply⟩ := reply_of_free v.present hfree
  have hgone := (habsent.answered hreply).after hlate (early.length + 1)
  refine ⟨reply, ?_⟩
  rw [hfates, ends_own (habsent _), hreply, hgone.2]
  rfl

/-- As long as its key is not used again, a parked read keeps its place and hears nothing. -/
theorem parked_until_used {early : List (Visit ρ)}
    (distinct : Distinct (early ++ v :: late))
    (hop : v.request.op = .read) (howned : (reached early).isOwned v.request.key = true)
    (hunused : ∀ u ∈ late, ¬ u.request.Uses v.request.key) :
    Parks (reached (early ++ v :: late)) v.request.who v.request.key ∧
      fatesOf (early ++ v :: late) v.request.who = [] := by
  obtain ⟨habsent, hlate, hfates⟩ := fatesOf_split distinct
  obtain ⟨hparks, hends⟩ := habsent.parks v.present hop howned
  obtain ⟨hstays, hnone⟩ := hparks.after hlate hunused (early.length + 1)
  constructor
  · rw [reached_append, after_cons]
    exact hstays
  · rw [hfates, hends, hnone]
    rfl

/-- The next use of its key decides the fate of a parked read, and nothing after that does. -/
theorem decided_by_next_use {early mid later : List (Visit ρ)} {w : Visit ρ}
    (distinct : Distinct (early ++ v :: (mid ++ w :: later)))
    (hop : v.request.op = .read) (howned : (reached early).isOwned v.request.key = true)
    (hunused : ∀ u ∈ mid, ¬ u.request.Uses v.request.key)
    (hleft : (reached (early ++ v :: mid ++ [w])).waiter v.request.key ≠ some v.request.who) :
    fatesOf (early ++ v :: (mid ++ w :: later)) v.request.who =
      (((reached (early ++ v :: mid)).handle w.present w.request).2.ends w.request.who
        v.request.who).map (early.length + 1 + mid.length, ·) := by
  obtain ⟨habsent, hlate, hfates⟩ := fatesOf_split distinct
  obtain ⟨hparks, hends⟩ := habsent.parks v.present hop howned
  obtain ⟨hstays, hnone⟩ := hparks.after (fun u hu => hlate u (List.mem_append_left _ hu)) hunused
    (early.length + 1)
  have hmid : ((reached early).handle v.present v.request).1.after mid =
      reached (early ++ v :: mid) := by
    rw [reached_append, after_cons]
  have hwho : w.request.who ≠ v.request.who :=
    hlate w (List.mem_append_right _ List.mem_cons_self)
  rw [hmid] at hstays
  rw [reached_snoc] at hleft
  have hlater : ∀ u ∈ later, u.request.who ≠ v.request.who := fun u hu =>
    hlate u (List.mem_append_right _ (List.mem_cons_of_mem w hu))
  have hgone := (hstays.absent hwho hleft).after hlater (early.length + 1 + mid.length + 1)
  rw [hfates, hends, record_append, endings_append, hnone, length_record, record_cons, endings,
    hmid, hgone.2]
  simp

theorem one_fate_per_request {early : List (Visit ρ)}
    (distinct : Distinct (early ++ v :: late)) :
    ((v.request.op = .read → (reached early).isOwned v.request.key = false) →
      ∃ reply, fatesOf (early ++ v :: late) v.request.who =
        [(early.length, some (.answered reply))]) ∧
    (v.request.op = .read → (reached early).isOwned v.request.key = true →
      (∀ mid rest, late = mid ++ rest → (∀ u ∈ mid, ¬ u.request.Uses v.request.key) →
        (reached (early ++ v :: mid)).waiter v.request.key = some v.request.who) ∧
      ((∀ u ∈ late, ¬ u.request.Uses v.request.key) →
        fatesOf (early ++ v :: late) v.request.who = []) ∧
      ∀ mid w later, late = mid ++ w :: later → (∀ u ∈ mid, ¬ u.request.Uses v.request.key) →
        w.request.key = v.request.key →
        (w.request.op = .read →
          fatesOf (early ++ v :: late) v.request.who =
              [(early.length + 1 + mid.length, some .discarded)] ∧
            (reached (early ++ v :: mid ++ [w])).waiter v.request.key = some w.request.who) ∧
        ∀ u, w.request.op = .write u →
          (w.present v.request.who = true →
            fatesOf (early ++ v :: late) v.request.who =
              [(early.length + 1 + mid.length, some (.answered (.granted u)))]) ∧
          (w.present v.request.who = false →
            fatesOf (early ++ v :: late) v.request.who =
                [(early.length + 1 + mid.length, none)] ∧
              (reached (early ++ v :: mid ++ [w])).isOwned v.request.key = false)) ∧
    (((reached early).handle v.present v.request).2 = .refused →
      reached (early ++ [v]) = reached early) := by
  refine ⟨answered_at_once distinct, ?_, ?_⟩
  · intro hop howned
    have hparks : ∀ mid rest, late = mid ++ rest →
        (∀ u ∈ mid, ¬ u.request.Uses v.request.key) →
        Parks (reached (early ++ v :: mid)) v.request.who v.request.key := by
      rintro mid rest rfl hunused
      have hshort : Distinct (early ++ v :: mid) := by
        refine List.Nodup.sublist (List.Sublist.map _ ?_) distinct
        exact (List.Sublist.refl early).append ((List.sublist_append_left _ _).cons_cons v)
      exact (parked_until_used hshort hop howned hunused).1
    refine ⟨fun mid rest hsplit hunused => (hparks mid rest hsplit hunused).waits,
      fun hunused => (parked_until_used distinct hop howned hunused).2, ?_⟩
    rintro mid w later rfl hunused hkey
    have hwaits := hparks mid (w :: later) rfl hunused
    have hwho : w.request.who ≠ v.request.who :=
      (fatesOf_split distinct).2.1 w (List.mem_append_right _ List.mem_cons_self)
    have sound := sound_reached (early ++ v :: mid)
    have hdecides := decided_by_next_use distinct hop howned hunused
    rw [reached_snoc] at hdecides ⊢
    rw [← hkey] at hwaits hdecides ⊢
    constructor
    · intro hread
      obtain ⟨hends, hwaiter⟩ := hwaits.displaced sound w.present hread
      have hleft : ((reached (early ++ v :: mid)).handle w.present w.request).1.waiter
          w.request.key ≠ some v.request.who := by
        rw [hwaiter]
        simpa using hwho
      refine ⟨?_, hwaiter⟩
      rw [hdecides hleft, hends]
      rfl
    · intro u hwrite
      obtain ⟨hends, hwaiter, howner⟩ := hwaits.released sound w.present hwho hwrite
      have hleft : ((reached (early ++ v :: mid)).handle w.present w.request).1.waiter
          w.request.key ≠ some v.request.who := by
        rw [hwaiter]
        simp
      constructor
      · intro hpresent
        rw [hdecides hleft, hends, hpresent]
        rfl
      · intro hgone
        refine ⟨?_, by rw [howner, hgone]⟩
        rw [hdecides hleft, hends, hgone]
        rfl
  · intro hrefused
    rw [reached_snoc]
    exact handle_of_refused hrefused

/-- Requester 1 is parked behind a key, and has gone away when the key is written. -/
def vanishingVisits : List (Visit Nat) :=
  [⟨⟨.read, "k", 0⟩, fun _ => true⟩, ⟨⟨.read, "k", 1⟩, fun _ => true⟩,
    ⟨⟨.unsupported "drop", "k", 2⟩, fun _ => true⟩, ⟨⟨.write 7, "k", 3⟩, fun x => x != 1⟩]

theorem one_fate_of_vanished_reader :
    Distinct vanishingVisits ∧ (reached (vanishingVisits.take 1)).isOwned "k" = true ∧
      fatesOf vanishingVisits 1 = [(3, none)] ∧
      (reached vanishingVisits).isOwned "k" = false := by
  have distinct : Distinct vanishingVisits := by
    unfold Distinct
    decide
  have howned : (reached (vanishingVisits.take 1)).isOwned "k" = true := rfl
  have hsplit : vanishingVisits = vanishingVisits.take 1 ++
      ⟨⟨.read, "k", 1⟩, fun _ => true⟩ :: vanishingVisits.drop 2 := rfl
  rw [hsplit] at distinct
  obtain ⟨_, _, hnext⟩ := (one_fate_per_request distinct).2.1 rfl howned
  obtain ⟨_, hwrite⟩ := hnext [⟨⟨.unsupported "drop", "k", 2⟩, fun _ => true⟩]
    ⟨⟨.write 7, "k", 3⟩, fun x => x != 1⟩ [] rfl (by simp [Request.Uses]) rfl
  exact ⟨distinct, howned, (hwrite 7 rfl).2 rfl⟩

end Store

end Custody
