import Custody.Proofs.Stop.Record
import Custody.Proofs.Walkthrough.Closing

/-!
# The course of a walkthrough

Beat by beat, what the walkthrough has shown so far and what is on the table. Whatever move comes
next, the actors' or its own, the walkthrough stays on its course, if only the read on the side is
with the store by the deadline. It is never stuck before it is over.
-/

namespace Custody.Walkthrough

/-- The lines of a walkthrough of which none is refused. -/
def expected (first second : Value) : List Trace.Line :=
  [⟨"client1", .get key (.fetched 0)⟩, ⟨"client1", .put key first .released⟩,
    ⟨"client2", .get key (.fetched first)⟩, ⟨"client1", .parked key⟩,
    ⟨"client2", .get key (.cacheHit first)⟩, ⟨"client2", .put key second .released⟩,
    ⟨"client1", .resumed key (.fetched second)⟩]

/-- How many lines there are before beat `n`: the wait for a parked reader adds none, and neither
does anything after the seventh. -/
def shown (n : Nat) : Nat := min (if n ≤ 4 then n else n - 1) 7

/-- The walkthrough at beat `n`. -/
def page (first second : Value) (n : Nat) (s : Cluster) (waiting launched : Option Nat)
    (time : Nat) : Walkthrough where
  cluster := s
  todo := (script first second).drop n
  waiting
  launched
  time
  lines := (expected first second).take (shown n)

/-- The read on the side is with the store by the deadline. -/
def Prompt (w : Walkthrough) : Prop :=
  Parking.patience ≤ w.time → w.cluster.Lists (.client 0)

/-- No line so far is the one to be refused. -/
def Open (refused : Option Nat) (n : Nat) : Prop := ∀ m, refused = some m → shown n ≤ m

inductive Course (first second : Value) (depth : Nat) (refused : Option Nat) :
    Walkthrough → Prop where
  | playing (n : Nat) (s : Cluster) (waiting launched : Option Nat) (time : Nat) (b : Table)
      (shows : Shows depth s b)
      (stage : Stage first second (Parking.patience ≤ time) n waiting launched b)
      (hopen : Open refused n) :
      Course first second depth refused (page first second n s waiting launched time)
  | closing (s : Cluster) (launched : Option Nat) (time : Nat) (closing : s.Closing)
      (hopen : Open refused 10) :
      Course first second depth refused (page first second 10 s none launched time)
  | closed (s : Cluster) (launched : Option Nat) (time : Nat) (closing : s.Closing)
      (stopped : s.Stopped) (hopen : Open refused 11) :
      Course first second depth refused (page first second 11 s none launched time)
  | completed (s : Cluster) (launched : Option Nat) (time : Nat) (closing : s.Closing)
      (stopped : s.Stopped) (hopen : Open refused 11) :
      Course first second depth refused
        { page first second 11 s none launched time with ending := some .completed }
  | refused (n : Nat) (s : Cluster) (launched : Option Nat) (time : Nat) (hn : n < 7)
      (hrefused : refused = some n) :
      Course first second depth refused
        ⟨s, [], none, launched, time, (expected first second).take n,
          some (.failed .lineRefused)⟩

/-- The walkthrough has come to its end, all lines shown and all actors stopped, or it has ended at
the line that is refused. -/
def Over (first second : Value) (refused : Option Nat) (w : Walkthrough) : Prop :=
  ((∀ m, refused = some m → 7 ≤ m) ∧ w.lines = expected first second ∧
      w.ending = some .completed ∧ w.allStopped = true) ∨
    ∃ n < 7, refused = some n ∧ w.lines = (expected first second).take n ∧
      w.ending = some (.failed .lineRefused)

variable {first second : Value} {depth : Nat} {refused : Option Nat} {w v : Walkthrough}
  {n c i : Nat} {s u : Cluster} {waiting launched launched' : Option Nat} {time : Nat} {b : Table}
  {p : Lone} {x : Seat} {t : Task} {r : ClientReply} {cache : Cache} {st : Trace.Step}

theorem course_start (first second : Value) (depth : Nat) (refused : Option Nat) :
    Course first second depth refused (start first second depth) :=
  .playing 0 _ none none 0 _ (shows_start first second) (.ready 0 _ rfl)
    fun _ _ => Nat.zero_le _

/-! ## The actors -/

/-- Whatever an actor does, the walkthrough stays on its course. -/
theorem Course.actor {m : Custody.Move} (course : Course first second depth refused w)
    (h : w.fire refused (.actor m) = some v) : Course first second depth refused v := by
  obtain ⟨cluster, e, hfire, rfl⟩ := fire_actor h
  cases course with
  | playing n s waiting launched time b shows stage hopen =>
    obtain ⟨b', hgoes, shows'⟩ := shows.fire hfire
    exact .playing n cluster waiting launched time b' shows' (stage.goes hgoes) hopen
  | closing s launched time closing hopen =>
    exact .closing cluster launched time (closing.fire hfire) hopen
  | closed s launched time closing stopped hopen =>
    exact absurd hfire (closing.not_fire_of_stopped stopped)
  | completed s launched time closing stopped hopen =>
    exact absurd hfire (closing.not_fire_of_stopped stopped)
  | refused n s launched time hn hrefused => exact .refused n cluster launched time hn hrefused

/-! ## Turning the page -/

theorem length_lines (n : Nat) : ((expected first second).take (shown n)).length = shown n := by
  rw [List.length_take]
  exact Nat.min_eq_left (Nat.min_le_right _ _)

theorem next_page (hshown : shown (n + 1) = shown n) :
    (page first second n s waiting launched time).next =
      page first second (n + 1) s none launched 0 := by
  simp only [page, next, List.tail_drop, hshown]

/-- A line is refused, and that is the end, or it is shown. -/
theorem Course.emit (hopen : Open refused n) (hshown : shown (n + 1) = shown n + 1)
    (hline : (expected first second)[shown n]? = some ⟨s.nameOf i, st⟩)
    (next : Open refused (n + 1) →
      Course first second depth refused (page first second (n + 1) s none launched 0)) :
    Course first second depth refused
      ((page first second n s waiting launched time).emit refused i st) := by
  obtain ⟨hrefused, hfail⟩ | ⟨htaken, hnext⟩ :=
    emit_cases refused (page first second n s waiting launched time) i st
  · rw [hfail]
    rw [page, length_lines] at hrefused
    exact .refused (shown n) s launched time (List.getElem?_eq_some_iff.mp hline).1 hrefused
  · rw [page, length_lines] at htaken
    have hlater : Open refused (n + 1) := by
      intro m hm
      have hle := hopen m hm
      have hne : shown n ≠ m := by
        rintro rfl
        exact htaken hm
      omega
    have hpage : (page first second n s waiting launched time).emit refused i st =
        page first second (n + 1) s none launched 0 := by
      rw [hnext]
      simp only [page, Walkthrough.next, List.tail_drop, hshown, List.take_add_one, hline,
        Option.toList_some]
    rw [hpage]
    exact next hlater

/-! ## The walkthrough's own moves -/

/-- The walkthrough moves and stays on its course, or it has to wait, and if nobody can move it is
over. -/
def Onward (first second : Value) (depth : Nat) (refused : Option Nat) (w : Walkthrough) : Prop :=
  (∃ v, w.proceed refused = some v ∧ Course first second depth refused v) ∨
    (w.proceed refused = none ∧
      ((∀ m, w.cluster.fire m = none) → Over first second refused w))

theorem onward_waits (shows : Shows depth w.cluster b) (hwaits : w.proceed refused = none)
    (hmoves : ¬ b.Still) : Onward first second depth refused w :=
  Or.inr ⟨hwaits, fun hstuck => absurd (shows.still hstuck) hmoves⟩

theorem onward_call {a : Action} {manner : Manner} (shows : Shows depth s b)
    (hx : b.seats[i]? = some ⟨cache, none⟩)
    (hproceed : (page first second n s none launched time).proceed refused =
      (page first second n s none launched time).callFor (.client i a manner))
    (stage : ∀ c, Stage first second (Parking.patience ≤ time) n (some c) launched
      { b with
        seats := b.seats.set i
          ⟨cache, some ⟨c, a, manner, (Target.client i a manner).isHeld, .queued⟩⟩ })
    (hopen : Open refused n) :
    Onward first second depth refused (page first second n s none launched time) := by
  obtain ⟨u, hcall, shows'⟩ := shows.callClient hx a manner
  refine Or.inl ⟨_, hproceed.trans (callFor_eq_some.mpr ⟨u, hcall, rfl⟩), ?_⟩
  exact .playing n u _ launched time _ shows' (stage _) hopen

theorem onward_query (shows : Shows depth s b) (hquery : b.query = none)
    (hproceed : (page first second n s none launched time).proceed refused =
      (page first second n s none launched time).callFor .snapshot)
    (stage : ∀ d, Stage first second (Parking.patience ≤ time) n (some d) launched
      { b with queue := b.queue ++ [.snapshot d], query := some ⟨d, .sent⟩ })
    (hopen : Open refused n) :
    Onward first second depth refused (page first second n s none launched time) := by
  obtain ⟨u, hcall, shows'⟩ := shows.callSnapshot hquery
  refine Or.inl ⟨_, hproceed.trans (callFor_eq_some.mpr ⟨u, hcall, rfl⟩), ?_⟩
  exact .playing n u _ launched time _ shows' (stage _) hopen

theorem awaitReply_eq (shows : Shows depth w.cluster b) (hx : b.seats[i]? = some x)
    (htask : x.task = some t) (go : ClientReply → Walkthrough) :
    w.awaitReply t.call go = match t.leg with
      | .noted r => some (go r)
      | _ => none := by
  rw [awaitReply, shows.ended_of_task hx htask, Task.outcome?]
  cases t.leg <;> rfl

theorem awaitSnapshot_eq {q : Query} (shows : Shows depth w.cluster b) (hq : b.query = some q)
    (go : Snapshot → Walkthrough) :
    w.awaitSnapshot q.call go = match q.leg with
      | .noted s => some (go s)
      | _ => none := by
  rw [awaitSnapshot, shows.ended_of_query hq, Query.outcome?]
  cases q.leg <;> rfl

/-- The walkthrough waits for a call, and shows what has come of it. -/
theorem onward_reply (lineOf : ClientReply → Trace.Step) (shows : Shows depth s b)
    (hx : b.seats[i]? = some ⟨cache, some t⟩)
    (hproceed : (page first second n s (some t.call) launched time).proceed refused =
      (page first second n s (some t.call) launched time).awaitReply t.call fun r =>
        (page first second n s (some t.call) launched time).emit refused i (lineOf r))
    (hmoves : (∀ r, t.leg ≠ .noted r) → ¬ b.Still)
    (hline : ∀ r, t.leg = .noted r →
      (expected first second)[shown n]? = some ⟨nameFor i, lineOf r⟩)
    (hshown : shown (n + 1) = shown n + 1)
    (stage : ∀ r, t.leg = .noted r → Stage first second (Parking.patience ≤ 0) (n + 1) none launched
      { b with seats := b.seats.set i ⟨cache, none⟩ })
    (hopen : Open refused n) :
    Onward first second depth refused (page first second n s (some t.call) launched time) := by
  have hreply := hproceed.trans (awaitReply_eq (w := page ..) shows hx rfl _)
  by_cases hnoted : ∃ r, t.leg = .noted r
  · obtain ⟨r, hr⟩ := hnoted
    rw [hr] at hreply
    refine Or.inl ⟨_, hreply, Course.emit hopen hshown ?_ fun hopen' => ?_⟩
    · rw [shows.nameOf hx]
      exact hline r hr
    · exact .playing (n + 1) s none launched 0 _ (shows.clear hx hr) (stage r hr) hopen'
  · have hwaits : ∀ r, t.leg ≠ .noted r := fun r hr => hnoted ⟨r, hr⟩
    refine onward_waits (w := page ..) shows ?_ (hmoves hwaits)
    rw [hreply]
    cases hleg : t.leg with
    | noted r => exact absurd hleg (hwaits r)
    | _ => rfl

/-- The walkthrough waits for a snapshot. -/
theorem onward_snapshot {d : Nat} {leg : Query.Leg} {go : Snapshot → Walkthrough}
    (shows : Shows depth w.cluster b) (hq : b.query = some ⟨d, leg⟩)
    (hproceed : w.proceed refused = w.awaitSnapshot d go)
    (hmoves : (∀ shot, leg ≠ .noted shot) → ¬ b.Still)
    (course : ∀ shot, leg = .noted shot → Course first second depth refused (go shot)) :
    Onward first second depth refused w := by
  have hshot := hproceed.trans (awaitSnapshot_eq shows hq _)
  by_cases hnoted : ∃ shot, leg = .noted shot
  · obtain ⟨shot, rfl⟩ := hnoted
    exact Or.inl ⟨_, hshot, course shot rfl⟩
  · have hwaits : ∀ shot, leg ≠ .noted shot := fun shot hshot => hnoted ⟨shot, hshot⟩
    refine onward_waits shows ?_ (hmoves hwaits)
    rw [hshot]
    cases leg with
    | noted shot => exact absurd rfl (hwaits shot)
    | _ => rfl

/-! ### One client alone -/

theorem todo_of_lone (hp : (lone first)[n]? = some p) :
    (page first second n s waiting launched time).todo =
      .call p.i p.trip.action :: (script first second).drop (n + 1) := by
  obtain _ | _ | _ | n := n
  · obtain rfl := Option.some.inj hp
    rfl
  · obtain rfl := Option.some.inj hp
    rfl
  · obtain rfl := Option.some.inj hp
    rfl
  · cases hp

theorem proceed_ready (hp : (lone first)[n]? = some p) :
    (page first second n s none launched time).proceed refused =
      (page first second n s none launched time).callFor
        (.client p.i p.trip.action .attached) := by
  rw [proceed, todo_of_lone hp]
  rfl

theorem proceed_trip (hp : (lone first)[n]? = some p) :
    (page first second n s (some c) launched time).proceed refused =
      (page first second n s (some c) launched time).awaitReply c fun r =>
        (page first second n s (some c) launched time).emit refused p.i
          (stepOf p.trip.action r) := by
  rw [proceed, todo_of_lone hp]
  rfl

/-- What a trip leaves on the table is what the next beat begins with. -/
theorem line_of_lone (second : Value) (late : Prop) (hp : (lone first)[n]? = some p) :
    (expected first second)[shown n]? = some ⟨nameFor p.i, stepOf p.trip.action p.trip.reply⟩ ∧
      shown (n + 1) = shown n + 1 ∧ Stage first second late (n + 1) none none p.finished := by
  obtain _ | _ | _ | n := n
  · obtain rfl := Option.some.inj hp
    exact ⟨rfl, rfl, .ready 1 _ rfl⟩
  · obtain rfl := Option.some.inj hp
    exact ⟨rfl, rfl, .ready 2 _ rfl⟩
  · obtain rfl := Option.some.inj hp
    exact ⟨rfl, rfl, .launching⟩
  · cases hp

theorem onward_ready (hp : (lone first)[n]? = some p) (shows : Shows depth s p.ready)
    (hopen : Open refused n) :
    Onward first second depth refused (page first second n s none none time) := by
  refine onward_call shows (p.seat_at _) (proceed_ready hp) (fun c => ?_) hopen
  have stage : Stage first second (Parking.patience ≤ time) n (some c) none (p.table c .queued) :=
    .trip n p c .queued hp
  rw [Lone.table, ← p.set_seats ⟨p.trip.idle, none⟩] at stage
  exact stage

theorem onward_trip {pt : Trip.Point} (hp : (lone first)[n]? = some p)
    (shows : Shows depth s (p.table c pt)) (hopen : Open refused n) :
    Onward first second depth refused (page first second n s (some c) none time) := by
  obtain ⟨hline, hshown, hnext⟩ := line_of_lone second (Parking.patience ≤ 0) hp
  refine onward_reply (stepOf p.trip.action) shows (p.seat_at _) (proceed_trip hp) ?_ ?_ hshown ?_
    hopen
  · intro hwaits hstill
    obtain rfl := p.noted_of_still hstill
    exact hwaits p.trip.reply rfl
  · intro r hr
    obtain ⟨_, rfl⟩ := Trip.noted_of_leg hr
    exact hline
  · intro r hr
    obtain ⟨rfl, _⟩ := Trip.noted_of_leg hr
    rw [Lone.finished, ← p.set_seats (p.trip.seat c .attached false .noted)] at hnext
    exact hnext

end Custody.Walkthrough
