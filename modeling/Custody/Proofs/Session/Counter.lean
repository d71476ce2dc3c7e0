import Custody.Cluster.Session
import Custody.Proofs.Session.Calm
import Custody.Proofs.Store.Fates
import Custody.Proofs.Store.Separation
import Custody.Store.Desk

/-!
# The same requests at a desk

What callers of a store do in a session can be done at a desk, where each request carries the number
of its step as its ticket. A ticket is pending there as long as its read is parked and was not given
up.
-/

namespace Custody

namespace Desk

/-- The desk after a step, if there is one. -/
def next (d : Desk) : Option Step → Desk
  | some st => (d.step st).1
  | none => d

def hears (d : Desk) : Option Step → List (Ticket × Fate)
  | some st => d.heard st
  | none => []

end Desk

namespace Session

/-- What callers of a store do: they ask, they go away, and they go away as soon as they have asked
for a snapshot. -/
inductive Raw where
  | request (op : Operation) (k : Key)
  | cancel (n : Nat)
  | dropSnapshot
  deriving DecidableEq, Repr

def Raw.step : Raw → Step
  | request op k => .call (.store op) k
  | cancel n => .cancel n
  | dropSnapshot => .dropSnapshot

/-- What step `n` is at a desk. -/
def Raw.deskStep? (n : Nat) : Raw → Option Desk.Step
  | request op k => some (.submit ⟨op, k, n⟩ false)
  | cancel m => some (.leave m)
  | dropSnapshot => none

def deskAfter (raws : List Raw) : Desk :=
  Desk.run {} (raws.zipIdx.filterMap fun x => x.1.deskStep? x.2)

/-- The caller of step `t` has gone away since. -/
def Dropped (raws : List Raw) (t : Ticket) : Prop := ∃ j, t < j ∧ raws[j]? = some (.cancel t)

/-- A report on a step shows what the step does at desk `d`. -/
structure Matches (d : Desk) (st : Option Desk.Step) (r : Report) : Prop where
  ended : ∀ n o, (n, o) ∈ r.ended ↔ ∃ f, (n, f) ∈ d.hears st ∧ o = f.outcome
  opened : ∀ n standing, (n, standing) ∈ r.opened ↔
    standing = .waiting ∧ (d.next st).isPresent n = true
  store : r.store = some (.shown (d.next st).store.snapshot)
  finding : r.finding = none

variable {raws : List Raw} {x : Raw} {t : Ticket}

theorem deskAfter_snoc (raws : List Raw) (x : Raw) :
    deskAfter (raws ++ [x]) = (deskAfter raws).next (x.deskStep? raws.length) := by
  rw [deskAfter, List.zipIdx_append, List.filterMap_append, Desk.run, List.foldl_append,
    Nat.zero_add]
  cases x <;> rfl

theorem dropped_snoc :
    Dropped (raws ++ [x]) t ↔ Dropped raws t ∨ (x = .cancel t ∧ t < raws.length) := by
  constructor
  · rintro ⟨j, hlt, hj⟩
    rcases entry_snoc hj with hj | ⟨rfl, hx⟩
    · exact Or.inl ⟨j, hlt, hj⟩
    · exact Or.inr ⟨hx, hlt⟩
  · rintro (⟨j, hlt, hj⟩ | ⟨rfl, hlt⟩)
    · exact ⟨j, hlt, by rw [List.getElem?_append_left (List.getElem?_eq_some_iff.mp hj).1, hj]⟩
    · exact ⟨raws.length, hlt, List.getElem?_concat_length⟩

end Session

/-! ## Who hears what -/

namespace Store

variable {ρ : Type} {present : ρ → Bool} {s : Store ρ} {r : Request ρ} {x : ρ} {k : Key}

/-- Nobody is named twice if the requester is not parked. -/
theorem nodup_fates (present : ρ → Bool) (habsent : s.waiter r.key ≠ some r.who) :
    (((s.handle present r).2.fates r.who).map Prod.fst).Nodup := by
  cases hv : (s.handle present r).2 with
  | granted v => simp [Verdict.fates]
  | parked displaced => cases displaced <;> simp [Verdict.fates]
  | accepted v next =>
    cases next with
    | passed next =>
      have hne : r.who ≠ next := by
        rintro rfl
        exact habsent (waiter_of_accepted hv)
      simpa [Verdict.fates] using hne
    | _ => simp [Verdict.fates]
  | refused => simp [Verdict.fates]

/-- A requester that hears nothing is parked, if it was not before. -/
theorem parked_or_told (present : ρ → Bool) (habsent : s.waiter r.key ≠ some r.who) :
    ((s.handle present r).1.waiter r.key = some r.who ∧
      ∀ f, (r.who, f) ∉ (s.handle present r).2.fates r.who) ∨
    ((∃ f, (r.who, f) ∈ (s.handle present r).2.fates r.who) ∧
      (s.handle present r).1.waiter r.key ≠ some r.who) := by
  rw [waiter_handle]
  cases hv : (s.handle present r).2 with
  | granted v => exact Or.inr ⟨⟨_, List.mem_cons_self⟩, habsent⟩
  | parked displaced =>
    refine Or.inl ⟨if_pos rfl, fun f hf => ?_⟩
    cases displaced with
    | none => cases hf
    | some earlier =>
      obtain ⟨rfl, _⟩ := Prod.mk.inj (List.mem_singleton.mp hf)
      exact habsent (op_of_parked hv).2.2.symm
  | accepted v next =>
    refine Or.inr ⟨?_, by simp⟩
    cases next <;> exact ⟨_, List.mem_cons_self⟩
  | refused => exact Or.inr ⟨⟨_, List.mem_cons_self⟩, habsent⟩

/-- Whoever loses its place and can be reached hears of it. -/
theorem told_of_left (hwaits : s.waiter k = some x) (hpresent : present x = true)
    (hleft : (s.handle present r).1.waiter k ≠ some x) :
    ∃ f, (x, f) ∈ (s.handle present r).2.fates r.who := by
  rw [waiter_handle] at hleft
  cases hv : (s.handle present r).2 with
  | granted v => rw [hv] at hleft; exact absurd hwaits hleft
  | parked displaced =>
    rw [hv] at hleft
    simp only at hleft
    split at hleft
    · rename_i hkey
      rw [(op_of_parked hv).2.2, hkey, hwaits]
      exact ⟨_, List.mem_cons_self⟩
    · exact absurd hwaits hleft
  | accepted v next =>
    rw [hv] at hleft
    simp only at hleft
    split at hleft
    · rename_i hkey
      rw [(op_of_accepted hv).2.2, handover, hkey, hwaits]
      simp only [hpresent, if_true]
      exact ⟨_, List.mem_cons_of_mem _ List.mem_cons_self⟩
    · exact absurd hwaits hleft
  | refused => rw [hv] at hleft; exact absurd hwaits hleft

/-- Whoever keeps its only place hears nothing. -/
theorem untold_of_kept (hwho : r.who ≠ x) (parks : s.Parks x k)
    (hsame : r.key = k → ∀ d v n, (s.handle present r).2 ≠ .parked d ∧
      (s.handle present r).2 ≠ .accepted v n) (f : Fate) :
    (x, f) ∉ (s.handle present r).2.fates r.who := by
  intro hf
  rcases concerned_of_fate hf with rfl | hwaits
  · exact hwho rfl
  · have hkept := hsame (parks.only _ hwaits)
    cases hv : (s.handle present r).2 with
    | granted v =>
      rw [hv] at hf
      exact hwho (Prod.mk.inj (List.mem_singleton.mp hf)).1.symm
    | parked d => exact (hkept d 0 .freed).1 hv
    | accepted v n => exact (hkept none v n).2 hv
    | refused =>
      rw [hv] at hf
      exact hwho (Prod.mk.inj (List.mem_singleton.mp hf)).1.symm

end Store

/-! ## Who is pending -/

namespace Desk

variable {d : Desk} {r : Request Ticket} {t : Ticket} {n : Nat} {dropped : Ticket → Prop}

/-- The requester has come to the desk. -/
def front (d : Desk) (r : Request Ticket) : Desk := d.receive r.who false

theorem isPresent_front : (d.front r).isPresent t = true ↔ r.who = t ∨ d.isPresent t = true := by
  rw [front, isPresent_receive]
  simp

theorem isPresent_submit : (d.next (some (.submit r false))).isPresent t = true ↔
    (d.front r).isPresent t = true ∧
      ∀ f, (t, f) ∉ (d.store.handle (d.front r).isPresent r).2.fates r.who := by
  change ((d.front r).serve r).1.isPresent t = true ↔ _
  rw [isPresent_serve, Bool.and_eq_true, Bool.not_eq_true', List.any_eq_false]
  refine and_congr_right fun _ => ⟨fun h f hf => h _ hf (beq_self_eq_true t), fun h f hf heq => ?_⟩
  obtain ⟨x, f⟩ := f
  obtain rfl := eq_of_beq heq
  exact h f hf

theorem mem_heard_submit {f : Fate} : (t, f) ∈ d.hears (some (.submit r false)) ↔
    (d.front r).isPresent t = true ∧
      (t, f) ∈ (d.store.handle (d.front r).isPresent r).2.fates r.who := by
  change (t, f) ∈ (((d.front r).serve r).2.fates r.who).filter _ ↔ _
  rw [List.mem_filter, and_comm]
  rfl

/-- The first `n` tickets have been used, and those of `dropped` have gone away. Whoever is pending
is parked, and whoever is parked is pending or has gone away. -/
structure Tidy (d : Desk) (n : Nat) (dropped : Ticket → Prop) : Prop where
  fresh : ∀ k t, d.store.waiter k = some t → t < n
  parks : ∀ k t, d.store.waiter k = some t → d.store.Parks t k
  parked : ∀ t, d.isPresent t = true → ∃ k, d.store.waiter k = some t
  loyal : ∀ k t, d.store.waiter k = some t → d.isPresent t = true ∨ dropped t
  gone : ∀ t, dropped t → t < n ∧ d.isPresent t = false

theorem tidy_start {dropped : Ticket → Prop} (h : ∀ t, ¬ dropped t) : Tidy {} 0 dropped where
  fresh k t ht := by simp [Store.waiter] at ht
  parks k t ht := by simp [Store.waiter] at ht
  parked t ht := by simp [isPresent] at ht
  loyal k t ht := by simp [Store.waiter] at ht
  gone t ht := absurd ht (h t)

theorem Tidy.absent (tidy : d.Tidy n dropped) (hwho : r.who = n) (k : Key) :
    d.store.waiter k ≠ some r.who := fun hwaits =>
  Nat.lt_irrefl n (hwho ▸ tidy.fresh k _ hwaits)

theorem Tidy.submit (tidy : d.Tidy n dropped) (hwho : r.who = n) :
    (d.next (some (.submit r false))).Tidy (n + 1) dropped where
  fresh k t ht := by
    obtain ⟨hwaits, _⟩ | ⟨_, rfl, _⟩ := Store.waiter_cases ht
    · exact Nat.lt_succ_of_lt (tidy.fresh k t hwaits)
    · rw [hwho]
      exact Nat.lt_succ_self n
  parks k t ht := by
    refine ⟨ht, fun k' ht' => ?_⟩
    obtain ⟨hwaits, _⟩ | ⟨hkey, hown, _⟩ := Store.waiter_cases ht
    · obtain ⟨hwaits', _⟩ | ⟨_, hown', _⟩ := Store.waiter_cases ht'
      · exact (tidy.parks k t hwaits).only k' hwaits'
      · exact absurd (hown' ▸ hwaits) (tidy.absent hwho k)
    · obtain ⟨hwaits', _⟩ | ⟨hkey', _⟩ := Store.waiter_cases ht'
      · exact absurd (hown ▸ hwaits') (tidy.absent hwho k')
      · exact hkey'.symm.trans hkey
  parked t ht := by
    obtain ⟨hfront, huntold⟩ := isPresent_submit.mp ht
    rcases isPresent_front.mp hfront with rfl | hpresent
    · obtain ⟨hparked, _⟩ | ⟨⟨f, hf⟩, _⟩ :=
        Store.parked_or_told (d.front r).isPresent (tidy.absent hwho r.key)
      · exact ⟨r.key, hparked⟩
      · exact absurd hf (huntold f)
    · obtain ⟨k, hwaits⟩ := tidy.parked t hpresent
      refine ⟨k, ?_⟩
      by_contra hleft
      obtain ⟨f, hf⟩ := Store.told_of_left hwaits hfront hleft
      exact huntold f hf
  loyal k t ht := by
    obtain ⟨hwaits, hsame⟩ | ⟨hkey, rfl, _⟩ := Store.waiter_cases ht
    · refine (tidy.loyal k t hwaits).imp_left fun hpresent => isPresent_submit.mpr ?_
      refine ⟨isPresent_front.mpr (Or.inr hpresent), ?_⟩
      refine Store.untold_of_kept ?_ (tidy.parks k t hwaits) hsame
      rintro rfl
      exact tidy.absent hwho k hwaits
    · obtain ⟨_, huntold⟩ | ⟨_, hleft⟩ :=
        Store.parked_or_told (d.front r).isPresent (tidy.absent hwho r.key)
      · exact Or.inl (isPresent_submit.mpr ⟨isPresent_front.mpr (Or.inl rfl), huntold⟩)
      · exact absurd (hkey ▸ ht) hleft
  gone t ht := by
    obtain ⟨hlt, hgone⟩ := tidy.gone t ht
    refine ⟨Nat.lt_succ_of_lt hlt, ?_⟩
    by_contra hpresent
    rcases isPresent_front.mp (isPresent_submit.mp (by simpa using hpresent)).1 with rfl | hpresent
    · exact Nat.lt_irrefl n (hwho ▸ hlt)
    · rw [hgone] at hpresent
      cases hpresent

theorem Tidy.leave {dropped' : Ticket → Prop} (tidy : d.Tidy n dropped) (m : Ticket)
    (h : ∀ t, dropped' t ↔ dropped t ∨ (t = m ∧ t < n)) :
    (d.next (some (.leave m))).Tidy (n + 1) dropped' where
  fresh k t ht := Nat.lt_succ_of_lt (tidy.fresh k t ht)
  parks := tidy.parks
  parked t ht := by
    change (d.leave m).isPresent t = true at ht
    rw [isPresent_leave, Bool.and_eq_true] at ht
    exact tidy.parked t ht.1
  loyal k t ht := by
    change (d.leave m).isPresent t = true ∨ _
    rw [isPresent_leave, h]
    by_cases htm : t = m
    · exact Or.inr (Or.inr ⟨htm, tidy.fresh k t ht⟩)
    · have hne : (m == t) = false := by simpa using Ne.symm htm
      rw [hne, Bool.not_false, Bool.and_true]
      exact (tidy.loyal k t ht).imp_right Or.inl
  gone t ht := by
    change t < n + 1 ∧ (d.leave m).isPresent t = false
    rw [isPresent_leave]
    rcases (h t).mp ht with hgone | ⟨rfl, hlt⟩
    · obtain ⟨hlt, hgone⟩ := tidy.gone t hgone
      exact ⟨Nat.lt_succ_of_lt hlt, by rw [hgone, Bool.false_and]⟩
    · exact ⟨Nat.lt_succ_of_lt hlt, by simp⟩

end Desk

namespace Session

variable {raws : List Raw} {t : Ticket}

theorem tidy_deskAfter (raws : List Raw) : (deskAfter raws).Tidy raws.length (Dropped raws) := by
  induction raws using List.reverseRecOn with
  | nil => exact Desk.tidy_start fun t ⟨j, _, hj⟩ => by cases hj
  | append_singleton raws x ih =>
    rw [deskAfter_snoc, List.length_append]
    have hdropped : ∀ t, Dropped (raws ++ [x]) t ↔
        Dropped raws t ∨ (x = .cancel t ∧ t < raws.length) := fun t => dropped_snoc
    cases x with
    | request op k =>
      have hsame : Dropped (raws ++ [.request op k]) = Dropped raws := by
        funext t
        simp [hdropped]
      rw [hsame]
      exact ih.submit rfl
    | cancel m =>
      refine ih.leave m fun t => ?_
      rw [hdropped, Raw.cancel.injEq, eq_comm]
    | dropSnapshot =>
      have hsame : Dropped (raws ++ [.dropSnapshot]) = Dropped raws := by
        funext t
        simp [hdropped]
      rw [hsame]
      exact ⟨fun k t ht => Nat.lt_succ_of_lt (ih.fresh k t ht), ih.parks, ih.parked, ih.loyal,
        fun t ht => ⟨Nat.lt_succ_of_lt (ih.gone t ht).1, (ih.gone t ht).2⟩⟩

/-- Pending is who is parked and has not gone away. -/
theorem isPresent_deskAfter (raws : List Raw) (t : Ticket) :
    (deskAfter raws).isPresent t = true ↔
      (∃ k, (deskAfter raws).store.waiter k = some t) ∧ ¬ Dropped raws t := by
  have tidy := tidy_deskAfter raws
  constructor
  · intro hpresent
    refine ⟨tidy.parked t hpresent, fun hgone => ?_⟩
    rw [(tidy.gone t hgone).2] at hpresent
    cases hpresent
  · rintro ⟨⟨k, hwaits⟩, hstays⟩
    exact (tidy.loyal k t hwaits).resolve_right hstays

end Session

end Custody
