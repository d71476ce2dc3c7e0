import Custody.Proofs.Walkthrough.Table

/-!
# What the walkthrough does to the table

It makes a call at a seat that is free, or sends for a snapshot, and clears away what has ended. It
waits for a call that it has held. What it can see of its calls, and that nobody can move any more,
is read off the table.
-/

namespace Custody.Walkthrough

/-- The call does not go on by itself. -/
def Task.Still (t : Task) : Prop :=
  match t.leg with
  | .queued => False
  | .asked slot => slot.answer? = none
  | .told _ => t.held = true
  | .noted _ => True

/-- How the call has ended, for a caller that has taken note of it. -/
def Task.outcome? (t : Task) : Option Outcome :=
  match t.leg with
  | .noted r => some (.answered (.client r))
  | _ => none

def Query.outcome? (q : Query) : Option Outcome :=
  match q.leg with
  | .noted s => some (.answered (.snapshot s))
  | _ => none

/-- No actor, and no caller that waits, can move. -/
structure Table.Still (b : Table) : Prop where
  queue : b.queue = []
  tasks : ∀ (i : Nat) x t, b.seats[i]? = some x → x.task = some t → t.Still
  query : ∀ c s, b.query ≠ some ⟨c, .told s⟩

namespace Shows

variable {depth : Nat} {s u : Cluster} {b : Table} {i c : Nat} {x : Seat} {t : Task} {q : Query}
  {cache : Cache} {r : ClientReply} {shot : Snapshot}

/-! ## New calls -/

theorem entries_length (x : Seat) : (x.member depth i).inbox.entries.length ≤ 1 := by
  obtain ⟨cache, task⟩ := x
  cases task with
  | none => exact Nat.zero_le _
  | some t =>
    obtain ⟨c, a, manner, held, leg⟩ := t
    cases leg <;> simp [Seat.member, Leg.inbox]

theorem calls_enter_of {target : Target} {k : Key} {status : Status} {call : Call}
    (hcall : s.calls[c]? = some call) : (s.enter target k status).calls[c]? = some call := by
  rw [Cluster.enter, List.getElem?_append_left (List.getElem?_eq_some_iff.mp hcall).1]
  exact hcall

theorem callClient (shows : Shows depth s b) (hx : b.seats[i]? = some ⟨cache, none⟩) (a : Action)
    (manner : Manner) : ∃ u, s.call (.client i a manner) key = some u ∧
      Shows depth u { b with seats := b.seats.set i ⟨cache, some
        ⟨s.calls.length, a, manner, (Target.client i a manner).isHeld, .queued⟩⟩ } := by
  have hm := shows.member_of_seat hx
  have hseats := getElem?_set_seat hx
  refine ⟨(s.enter (.client i a manner) key (.pending (Target.client i a manner).isHeld
    .empty)).onMember i fun m => { m with inbox := m.inbox.push ⟨s.calls.length, a, key⟩ }, ?_, ?_⟩
  · simp [Cluster.call, hm, Seat.member]
  · refine ⟨shows.keeper, ?_, ?_, ?_, ?_, shows.sober.queued, shows.sober.parked,
      shows.sober.watched⟩
    · intro j
      rw [Cluster.members_onMember, hseats]
      split
      · rename_i hij
        subst hij
        change s.members[i]?.map _ = _
        rw [hm]
        rfl
      · exact shows.members j
    · intro j y t hy htask
      simp only [hseats] at hy
      split at hy
      · rename_i hij
        obtain rfl := Option.some.inj hy
        obtain rfl := Option.some.inj htask
        subst hij
        exact List.getElem?_concat_length
      · exact calls_enter_of (shows.tasks j y t hy htask)
    · exact fun q hq => calls_enter_of (shows.query q hq)
    · intro c call hc hpending
      obtain hold | ⟨rfl, _⟩ := entry_snoc hc
      · obtain ⟨j, y, t, hy, htask, rfl⟩ | hquery := shows.closed c call hold hpending
        · refine Or.inl ⟨j, y, t, ?_, htask, rfl⟩
          have hij : i ≠ j := by
            rintro rfl
            obtain rfl := Option.some.inj (hx.symm.trans hy)
            cases htask
          simp only [hseats, if_neg hij]
          exact hy
        · exact Or.inr hquery
      · exact Or.inl ⟨i, _, _, (hseats _ i).trans (if_pos rfl), rfl, rfl⟩

theorem callSnapshot (shows : Shows depth s b) (hquery : b.query = none) :
    ∃ u, s.call .snapshot key = some u ∧
      Shows depth u { b with
        queue := b.queue ++ [.snapshot s.calls.length],
        query := some ⟨s.calls.length, .sent⟩ } := by
  refine ⟨(s.enter .snapshot key (.pending false .empty)).send (.snapshot s.calls.length), ?_, ?_⟩
  · simp [Cluster.call, shows.keeper, Target.isHeld]
  · refine ⟨?_, shows.members, ?_, ?_, ?_, ?_, shows.sober.parked, ?_⟩
    · simp [Cluster.send, Cluster.enter, shows.keeper, Inbox.push]
    · exact fun j y t hy htask => calls_enter_of (shows.tasks j y t hy htask)
    · intro q hq
      obtain rfl := Option.some.inj hq
      exact List.getElem?_concat_length
    · intro c call hc hpending
      obtain hold | ⟨rfl, _⟩ := entry_snoc hc
      · obtain htask | ⟨q, hq, _⟩ := shows.closed c call hold hpending
        · exact Or.inl htask
        · cases hquery.symm.trans hq
      · exact Or.inr ⟨_, rfl, rfl⟩
    · intro c r hr
      rcases List.mem_append.mp hr with hr | hr
      · exact shows.sober.queued c r hr
      · cases List.mem_singleton.mp hr
    · have hwatched := shows.sober.watched
      rw [hquery] at hwatched
      rw [List.filterMap_append, hwatched]
      rfl

/-! ## Ended calls -/

/-- A call whose end has been noted is cleared away. -/
theorem clear (shows : Shows depth s b) (hx : b.seats[i]? = some ⟨cache, some t⟩)
    (hleg : t.leg = .noted r) : Shows depth s { b with seats := b.seats.set i ⟨cache, none⟩ } := by
  obtain ⟨c, a, manner, held, leg⟩ := t
  obtain rfl : leg = .noted r := hleg
  have hseats := getElem?_set_seat hx ⟨cache, none⟩
  refine ⟨shows.keeper, ?_, ?_, shows.query, ?_, shows.sober.queued, shows.sober.parked,
    shows.sober.watched⟩
  · intro j
    rw [hseats]
    split
    · rename_i hij
      have hmember := shows.member_of_seat hx
      subst hij
      exact hmember
    · exact shows.members j
  · intro j y t hy htask
    simp only [hseats] at hy
    split at hy
    · obtain rfl := Option.some.inj hy
      cases htask
    · exact shows.tasks j y t hy htask
  · intro c' call hc hpending
    obtain ⟨j, y, t, hy, htask, rfl⟩ | hquery := shows.closed c' call hc hpending
    · have hij : i ≠ j := by
        rintro rfl
        obtain rfl := Option.some.inj (hx.symm.trans hy)
        obtain rfl := Option.some.inj htask
        obtain rfl := Option.some.inj (hc.symm.trans (shows.tasks i _ _ hx rfl))
        cases hpending
      refine Or.inl ⟨j, y, t, ?_, htask, rfl⟩
      simp only [hseats, if_neg hij]
      exact hy
    · exact Or.inr hquery

theorem clearQuery (shows : Shows depth s b) (hq : b.query = some ⟨c, .noted shot⟩) :
    Shows depth s { b with query := none } where
  keeper := shows.keeper
  members := shows.members
  tasks := shows.tasks
  query := nofun
  closed c' call hc hpending := by
    obtain htask | ⟨q, hquery, rfl⟩ := shows.closed c' call hc hpending
    · exact Or.inl htask
    · obtain rfl := Option.some.inj (hq.symm.trans hquery)
      obtain rfl := Option.some.inj (hc.symm.trans (shows.query _ hq))
      cases hpending
  sober := by
    have hwatched := shows.sober.watched
    rw [hq] at hwatched
    exact ⟨shows.sober.queued, shows.sober.parked, hwatched⟩

/-- Its caller begins to wait for a call that it has held. -/
theorem wait (shows : Shows depth s b) (hx : b.seats[i]? = some ⟨cache, some t⟩)
    (hheld : t.held = true) (hleg : ∀ r, t.leg ≠ .noted r) :
    ∃ u, s.wait t.call = some u ∧
      Shows depth u { b with seats := b.seats.set i ⟨cache, some { t with held := false }⟩ } := by
  have hrecord := shows.tasks i _ t hx rfl
  obtain ⟨c, a, manner, held, leg⟩ := t
  obtain rfl : held = true := hheld
  obtain ⟨slot, hstatus, hlater⟩ : ∃ slot, (⟨c, a, manner, true, leg⟩ : Task).status =
      .pending true slot ∧ (⟨c, a, manner, false, leg⟩ : Task).status = .pending false slot := by
    cases leg with
    | noted r => exact absurd rfl (hleg r)
    | _ => exact ⟨_, rfl, rfl⟩
  refine ⟨s.onCall c fun c => { c with status := .pending false slot }, ?_, ?_⟩
  · simp only [Cluster.wait, hrecord, Task.record, hstatus, Option.bind_eq_bind, Option.bind_some]
  · refine shows.onSeat hx rfl ⟨c, a, manner, false, leg⟩ rfl shows.keeper
      (shows.members_of_same hx rfl) (calls_of_onCall hrecord ?_) (Or.inl rfl)
    simp only [Task.record, hlater]

/-! ## What can be seen -/

theorem ended_of_task (shows : Shows depth s b) (hx : b.seats[i]? = some x)
    (htask : x.task = some t) : s.ended? t.call = t.outcome? := by
  have hrecord := shows.tasks i x t hx htask
  obtain ⟨c, a, manner, held, leg⟩ := t
  simp only [Cluster.ended?, hrecord, Option.bind_eq_bind, Option.bind_some]
  cases leg <;> rfl

theorem ended_of_query (shows : Shows depth s b) (hq : b.query = some q) :
    s.ended? q.call = q.outcome? := by
  have hrecord := shows.query q hq
  obtain ⟨c, leg⟩ := q
  simp only [Cluster.ended?, hrecord, Option.bind_eq_bind, Option.bind_some]
  cases leg <;> rfl

/-- There is always a place in the queue for the one call at a seat. -/
theorem not_blocked (shows : Shows depth s b) (c i : Nat) : s.isBlocked c i = false := by
  rw [Cluster.isBlocked]
  cases hm : s.members[i]? with
  | none => rfl
  | some m =>
    obtain ⟨x, _, rfl⟩ := shows.member_some hm
    have hroom : (x.member depth i).inbox.entries.length ≤ (x.member depth i).inbox.room :=
      (entries_length x).trans (Nat.le_max_right depth 1)
    simp [Inbox.blocked, List.drop_eq_nil_of_le hroom]

theorem nameOf (shows : Shows depth s b) (hx : b.seats[i]? = some x) : s.nameOf i = nameFor i := by
  rw [Cluster.nameOf, shows.member_of_seat hx]
  rfl

/-- Where nothing can move, nothing on the table can. -/
theorem still (shows : Shows depth s b) (hstuck : ∀ m, s.fire m = none) : b.Still where
  queue := by
    have hentries := Cluster.entries_of_serve (by rw [shows.keeper]) (hstuck .serve)
    rw [shows.keeper] at hentries
    exact hentries
  tasks i x t hx htask := by
    have hm := shows.member_of_seat hx
    have hrecord := shows.tasks i x t hx htask
    obtain ⟨cache, task⟩ := x
    obtain rfl : task = some t := htask
    obtain ⟨c, a, manner, held, leg⟩ := t
    cases leg with
    | queued => cases Cluster.entries_of_begin hm rfl rfl (hstuck (.begin i))
    | asked slot =>
      rcases Cluster.slot_of_resume hm rfl (hstuck (.resume i)) with rfl | rfl
      · rfl
      · rfl
    | told r =>
      by_contra hheld
      obtain rfl : held = false := by simpa [Task.Still] using hheld
      have hfinish : s.finish c = none := hstuck (.finish c)
      simp [Cluster.finish, hrecord, Cluster.outcome?, Task.record, Task.status] at hfinish
    | noted r => trivial
  query c shot hq := by
    have hrecord := shows.query _ hq
    have hfinish : s.finish c = none := hstuck (.finish c)
    simp [Cluster.finish, hrecord, Cluster.outcome?, Query.record] at hfinish

end Shows

end Custody.Walkthrough
