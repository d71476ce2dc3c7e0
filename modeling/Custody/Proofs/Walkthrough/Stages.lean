import Custody.Proofs.Walkthrough.Trip

/-!
# The stages of a walkthrough

What may be on the table at each beat. The first three beats are trips of one client alone. Then the
first client reads the key on the side, and that read goes on beside whatever else happens until it
is parked, and again from the moment at which the second client gives the key back. Every stage is
closed under the moves of the actors.
-/

namespace Custody.Walkthrough

variable {first second : Value} {late : Prop} {b b' : Table} {i n c d : Nat}
  {waiting launched : Option Nat} {x x' y : Seat} {msgs queue : List Command}
  {look : Option Query} {manner : Manner} {held : Bool}

/-! ## The read on the side -/

/-- How far the read on the side has come while the other client has the key. -/
inductive Reading where
  | queued
  | sent
  | parked
  deriving DecidableEq

namespace Reading

variable {r : Reading}

def point : Reading → Trip.Point
  | queued => .queued
  | sent | parked => .sent

def message : Reading → List Command
  | sent => [.request ⟨.read, key, .client 0⟩]
  | queued | parked => []

def store (first : Value) : Reading → Store Requester
  | parked => .single key first true (some (.client 0))
  | queued | sent => .single key first true none

/-- The read is call `c`, and the other client is `y`. -/
def table (first second : Value) (r : Reading) (c : Nat) (y : Seat) (queue : List Command)
    (look : Option Query) : Table :=
  ⟨r.store first, queue, [(Trip.get second).seat c (.dispatched true) true r.point, y], look⟩

theorem mem_waiting (first : Value) (r : Reading) :
    key ∈ (r.store first).snapshot.waiting ↔ r = .parked := by
  cases r <;> simp [store, Store.mem_waiting_single]

/-- Nobody hears of it when the read is parked. -/
theorem served_sent (first second : Value) (c : Nat) (y : Seat) (queue rest : List Command)
    (look : Option Query) (present : Requester → Bool) :
    (table first second sent c y queue look).served present ⟨.read, key, .client 0⟩ rest =
      table first second parked c y rest look := by
  simp only [Table.served, Table.hear, table, store, Store.read_owned, Verdict.fates,
    List.lookup_nil, Seat.hear_none]
  rfl

theorem goes_cases (h : (r.table first second c y queue look).Goes b') :
    (r = .queued ∧ b' = table first second sent c y (queue ++ message sent) look) ∨
    (∃ y' msgs, y.Goes 1 y' msgs ∧ b' = r.table first second c y' (queue ++ msgs) look) ∨
    (∃ q rest present, queue = .request q :: rest ∧ present (.client 0) = true ∧
      b' = (r.table first second c y queue look).served present q rest) ∨
    (∃ d rest, queue = .snapshot d :: rest ∧ look = some ⟨d, .sent⟩ ∧
      b' = r.table first second c y rest (some ⟨d, .told (r.store first).snapshot⟩)) ∨
    ∃ d s, look = some ⟨d, .told s⟩ ∧
      b' = r.table first second c y queue (some ⟨d, .noted s⟩) := by
  obtain ⟨x', msgs, hgoes, rfl⟩ | hother := goes_pair h
  · refine Or.inl ?_
    obtain ⟨hpoint, rfl, rfl⟩ | ⟨hpoint, _⟩ | ⟨hpoint, _⟩ := Trip.goes_seat hgoes
    · cases r with
      | queued => exact ⟨rfl, rfl⟩
      | _ => cases hpoint
    · cases r <;> cases hpoint
    · cases r <;> cases hpoint
  · exact Or.inr hother

end Reading

/-! ## Answers -/

/-- The store has answered. A caller that does not wait takes no note of the reply. -/
def Trip.Point.Back (held : Bool) (pt : Trip.Point) : Prop :=
  pt = .heard ∨ pt = .told ∨ (pt = .noted ∧ held = false)

theorem Trip.back_of_goes {p : Trip} {pt : Trip.Point} (back : pt.Back held)
    (h : (p.seat c manner held pt).Goes i x' msgs) :
    ∃ pt', Trip.Point.Back held pt' ∧ x' = p.seat c manner held pt' ∧ msgs = [] := by
  obtain ⟨rfl, _⟩ | ⟨rfl, rfl, rfl⟩ | ⟨rfl, hheld, rfl, rfl⟩ := Trip.goes_seat h
  · rcases back with back | back | ⟨back, _⟩ <;> cases back
  · exact ⟨.told, Or.inr (Or.inl rfl), rfl, rfl⟩
  · exact ⟨.noted, Or.inr (Or.inr ⟨rfl, hheld⟩), rfl, rfl⟩

/-- Who has the key reads it. -/
def hit (first : Value) (d : Nat) (leg : Leg) : Seat :=
  ⟨.single key first, some ⟨d, .get, .attached, false, leg⟩⟩

/-- How far such a read comes. -/
def Hits (first : Value) (leg : Leg) : Prop :=
  leg = .queued ∨ leg = .told (.cacheHit first) ∨ leg = .noted (.cacheHit first)

theorem goes_hit {leg : Leg} (hits : Hits first leg) (h : (hit first d leg).Goes i x' msgs) :
    ∃ leg', Hits first leg' ∧ x' = hit first d leg' ∧ msgs = [] := by
  cases h with
  | asks t after htask hleg hstart =>
    obtain rfl := Option.some.inj htask
    cases Cache.get_of_single.symm.trans hstart
  | settles t after r htask hleg hstart =>
    obtain rfl := Option.some.inj htask
    obtain ⟨rfl, hr⟩ := Prod.mk.inj (Cache.get_of_single.symm.trans hstart)
    obtain rfl := Option.some.inj hr
    exact ⟨_, Or.inr (Or.inl rfl), rfl, rfl⟩
  | resumes t slot answer after r htask hleg =>
    obtain rfl := Option.some.inj htask
    obtain rfl : leg = .asked slot := hleg
    rcases hits with hits | hits | hits <;> cases hits
  | notes t r htask hleg =>
    obtain rfl := Option.some.inj htask
    obtain rfl : leg = .told r := hleg
    rcases hits with hits | hits | hits
    · cases hits
    · cases hits
      exact ⟨_, Or.inr (Or.inr rfl), rfl, rfl⟩
    · cases hits

/-- The snapshot has been taken. -/
def Query.Leg.Shows (leg : Query.Leg) (shot : Snapshot) : Prop :=
  leg = .told shot ∨ leg = .noted shot

/-! ## The stages -/

/-- The second client has the key, and no call. -/
def owner (first : Value) : Seat := ⟨.single key first, none⟩

/-- The key has been given back and has gone to the reader that was parked. -/
def handedOver (second : Value) (c : Nat) (held : Bool) (pt : Trip.Point) (y : Seat) : Table :=
  ⟨.single key second true none, [],
    [(Trip.get second).seat c (.dispatched true) held pt, y], none⟩

/-- Both clients rest, and the first one has the key. -/
def quiet (second : Value) (queue : List Command) (look : Option Query) : Table :=
  ⟨.single key second true none, queue, [⟨.single key second, none⟩, ⟨∅, none⟩], look⟩

/-- What may be on the table at beat `n`, when the walkthrough waits for one call and has launched
another. `late` says that the deadline for a parked reader is over. -/
inductive Stage (first second : Value) (late : Prop) : Nat → Option Nat → Option Nat → Table → Prop
  where
  | ready (n : Nat) (p : Lone) (hp : (lone first)[n]? = some p) :
      Stage first second late n none none p.ready
  | trip (n : Nat) (p : Lone) (c : Nat) (pt : Trip.Point) (hp : (lone first)[n]? = some p) :
      Stage first second late n (some c) none (p.table c pt)
  | launching : Stage first second late 3 none none
      ⟨.single key first true none, [], [⟨∅, none⟩, owner first], none⟩
  | launched (r : Reading) (c : Nat) : Stage first second late 3 (some c) none
      (r.table first second c (owner first) r.message none)
  | looking (r : Reading) (c : Nat) : Stage first second late 4 none (some c)
      (r.table first second c (owner first) r.message none)
  -- the snapshot will be taken before the read reaches the store
  | ahead (r : Reading) (c d : Nat) (hearly : ¬ late) :
      Stage first second late 4 (some d) (some c)
        (r.table first second c (owner first) (.snapshot d :: r.message) (some ⟨d, .sent⟩))
  | behind (r : Reading) (c d : Nat) (hsent : r ≠ .queued) :
      Stage first second late 4 (some d) (some c)
        (r.table first second c (owner first) (r.message ++ [.snapshot d]) (some ⟨d, .sent⟩))
  | looked (r : Reading) (c d : Nat) (leg : Query.Leg) (shot : Snapshot) (hleg : leg.Shows shot)
      (hseen : key ∈ shot.waiting → r = .parked) (hunseen : key ∉ shot.waiting → ¬ late) :
      Stage first second late 4 (some d) (some c)
        (r.table first second c (owner first) r.message (some ⟨d, leg⟩))
  | owning (n : Nat) (c : Nat) (hn : n = 5 ∨ n = 6) : Stage first second late n none (some c)
      (Reading.parked.table first second c (owner first) [] none)
  | hitting (c d : Nat) (leg : Leg) (hleg : Hits first leg) :
      Stage first second late 5 (some d) (some c)
        (Reading.parked.table first second c (hit first d leg) [] none)
  | giving (c d : Nat) : Stage first second late 6 (some d) (some c)
      (Reading.parked.table first second c
        ((Trip.put first second).seat d .attached false .queued) [] none)
  | giveSent (c d : Nat) : Stage first second late 6 (some d) (some c)
      (Reading.parked.table first second c ((Trip.put first second).seat d .attached false .sent)
        [.request ((Trip.put first second).request 1)] none)
  | handed (c d : Nat) (pt pt' : Trip.Point) (hpt : pt.Back true) (hpt' : pt'.Back false) :
      Stage first second late 6 (some d) (some c)
        (handedOver second c true pt ((Trip.put first second).seat d .attached false pt'))
  | collecting (c : Nat) (pt : Trip.Point) (hpt : pt.Back true) :
      Stage first second late 7 none (some c) (handedOver second c true pt ⟨∅, none⟩)
  | collected (c : Nat) (pt : Trip.Point) (hpt : pt.Back false) :
      Stage first second late 7 (some c) (some c) (handedOver second c false pt ⟨∅, none⟩)
  | resting (n : Nat) (c : Nat) (hn : n = 8 ∨ n = 9) : Stage first second late n none (some c)
      (quiet second [] none)
  | inspecting (c d : Nat) : Stage first second late 8 (some d) (some c)
      (quiet second [.snapshot d] (some ⟨d, .sent⟩))
  | inspected (c d : Nat) (leg : Query.Leg) (shot : Snapshot) (hleg : leg.Shows shot) :
      Stage first second late 8 (some d) (some c) (quiet second [] (some ⟨d, leg⟩))

/-! ## What is kept -/

/-- Where the clients rest and nothing is on its way, nothing happens. -/
theorem not_goes_of_resting (hqueue : b.queue = []) (hquery : b.query = none)
    (hrest : ∀ x ∈ b.seats, x.task = none) : ¬ b.Goes b' := by
  intro h
  cases h with
  | serves r rest present hqueue' => cases hqueue.symm.trans hqueue'
  | observes c rest hqueue' => cases hqueue.symm.trans hqueue'
  | notices c s hquery' => cases hquery.symm.trans hquery'
  | seat i x x' msgs hx hgoes =>
    obtain ⟨cache, task⟩ := x
    obtain rfl : task = none := hrest _ (List.mem_of_getElem? hx)
    exact Seat.not_goes_of_resting cache hgoes

theorem Lone.not_goes_ready (p : Lone) : ¬ p.ready.Goes b' := by
  refine not_goes_of_resting rfl rfl fun x hx => ?_
  rcases List.mem_or_eq_of_mem_set hx with hother | rfl
  · rw [List.eq_of_mem_replicate hother]
  · rfl

theorem handedOver_goes {pt : Trip.Point} {cache : Cache} (hpt : pt.Back held)
    (h : (handedOver second c held pt ⟨cache, none⟩).Goes b') :
    ∃ pt', Trip.Point.Back held pt' ∧ b' = handedOver second c held pt' ⟨cache, none⟩ := by
  obtain ⟨x', msgs, hgoes, rfl⟩ | ⟨y', msgs, hgoes, _⟩ | ⟨q, rest, present, hqueue, _⟩ |
    ⟨d, rest, hqueue, _⟩ | ⟨d, shot, hlook, _⟩ := goes_pair h
  · obtain ⟨pt', hpt', rfl, rfl⟩ := Trip.back_of_goes hpt hgoes
    exact ⟨pt', hpt', rfl⟩
  · exact absurd hgoes (Seat.not_goes_of_resting _)
  · cases hqueue
  · cases hqueue
  · cases hlook

/-- With the write of the second client the first one gets the key, and both hear of it. -/
theorem served_put (first second : Value) (c d : Nat) (present : Requester → Bool)
    (hpresent : present (.client 0) = true) :
    (Reading.parked.table first second c ((Trip.put first second).seat d .attached false .sent)
        [.request ((Trip.put first second).request 1)] none).served present
          ((Trip.put first second).request 1) [] =
      handedOver second c true .heard ((Trip.put first second).seat d .attached false .heard) := by
  have hrequest : (Trip.put first second).request 1 = ⟨.write second, key, .client 1⟩ := rfl
  rw [hrequest]
  simp only [Table.served, Table.hear, Reading.table, Reading.store,
    Store.write_awaited key second first (.client 1) hpresent]
  rfl

theorem quiet_goes (h : (quiet second queue look).Goes b') :
    (∃ q rest, queue = .request q :: rest) ∨
    (∃ d rest, queue = .snapshot d :: rest ∧ look = some ⟨d, .sent⟩ ∧
      b' = quiet second rest
        (some ⟨d, .told (Store.single (ρ := Requester) key second true none).snapshot⟩)) ∨
    ∃ d s, look = some ⟨d, .told s⟩ ∧ b' = quiet second queue (some ⟨d, .noted s⟩) := by
  obtain ⟨_, _, hgoes, _⟩ | ⟨_, _, hgoes, _⟩ | ⟨q, rest, present, hqueue, _⟩ | hother :=
    goes_pair h
  · exact absurd hgoes (Seat.not_goes_of_resting _)
  · exact absurd hgoes (Seat.not_goes_of_resting _)
  · exact Or.inl ⟨q, rest, hqueue⟩
  · exact Or.inr hother

/-- The read on the side goes on while the second client rests. -/
theorem Reading.goes {r : Reading}
    (h : (r.table first second c (owner first) r.message none).Goes b') :
    ∃ r' : Reading, b' = r'.table first second c (owner first) r'.message none := by
  obtain ⟨rfl, rfl⟩ | ⟨y', msgs, hgoes, _⟩ | ⟨q, rest, present, hqueue, _, rfl⟩ |
    ⟨d, rest, hqueue, hlook, _⟩ | ⟨d, shot, hlook, _⟩ := Reading.goes_cases h
  · exact ⟨.sent, rfl⟩
  · exact absurd hgoes (Seat.not_goes_of_resting _)
  · cases r with
    | sent =>
      cases hqueue
      exact ⟨.parked, Reading.served_sent ..⟩
    | _ => cases hqueue
  · cases hlook
  · cases hlook

/-- While the read is parked, and nothing is on its way, only the second client can move. -/
theorem Reading.goes_parked (h : (Reading.parked.table first second c y [] none).Goes b') :
    ∃ y' msgs, y.Goes 1 y' msgs ∧ b' = Reading.parked.table first second c y' msgs none := by
  obtain ⟨hr, _⟩ | hgoes | ⟨q, rest, present, hqueue, _⟩ | ⟨d, rest, hqueue, _⟩ |
    ⟨d, shot, hlook, _⟩ := Reading.goes_cases h
  · cases hr
  · exact hgoes
  · cases hqueue
  · cases hqueue
  · cases hlook

theorem goes_ahead {r : Reading} (hearly : ¬ late) (h : Table.Goes
    (r.table first second c (owner first) (.snapshot d :: r.message) (some ⟨d, .sent⟩)) b') :
    Stage first second late 4 (some d) (some c) b' := by
  obtain ⟨rfl, rfl⟩ | ⟨y', msgs, hgoes, _⟩ | ⟨q, rest, present, hqueue, _⟩ |
    ⟨d', rest, hqueue, hlook, rfl⟩ | ⟨d', shot, hlook, _⟩ := Reading.goes_cases h
  · exact .ahead .sent c d hearly
  · exact absurd hgoes (Seat.not_goes_of_resting _)
  · cases hqueue
  · cases hqueue
    exact .looked r c d _ _ (Or.inl rfl) (Reading.mem_waiting first r).mp fun _ => hearly
  · cases hlook

/-- The snapshot shows the read, since it is behind it. -/
theorem goes_behind {r : Reading} (hsent : r ≠ .queued) (h : Table.Goes
    (r.table first second c (owner first) (r.message ++ [.snapshot d]) (some ⟨d, .sent⟩)) b') :
    Stage first second late 4 (some d) (some c) b' := by
  obtain ⟨rfl, rfl⟩ | ⟨y', msgs, hgoes, _⟩ | ⟨q, rest, present, hqueue, _, rfl⟩ |
    ⟨d', rest, hqueue, hlook, rfl⟩ | ⟨d', shot, hlook, _⟩ := Reading.goes_cases h
  · exact absurd rfl hsent
  · exact absurd hgoes (Seat.not_goes_of_resting _)
  · cases r with
    | queued => exact absurd rfl hsent
    | sent =>
      cases hqueue
      rw [Reading.served_sent]
      exact .behind .parked c d (by simp)
    | parked => cases hqueue
  · cases r with
    | queued => exact absurd rfl hsent
    | sent => cases hqueue
    | parked =>
      cases hqueue
      cases hlook
      exact .looked .parked c d _ _ (Or.inl rfl) (fun _ => rfl) fun hunseen =>
        absurd ((Reading.mem_waiting first .parked).mpr rfl) hunseen
  · cases hlook

theorem goes_looked {r : Reading} {leg : Query.Leg} {shot : Snapshot} (hleg : leg.Shows shot)
    (hseen : key ∈ shot.waiting → r = .parked) (hunseen : key ∉ shot.waiting → ¬ late)
    (h : Table.Goes (r.table first second c (owner first) r.message (some ⟨d, leg⟩)) b') :
    Stage first second late 4 (some d) (some c) b' := by
  obtain ⟨rfl, rfl⟩ | ⟨y', msgs, hgoes, _⟩ | ⟨q, rest, present, hqueue, _, rfl⟩ |
    ⟨d', rest, hqueue, _⟩ | ⟨d', shot', hlook, rfl⟩ := Reading.goes_cases h
  · exact .looked .sent c d leg shot hleg (fun hkey => by cases hseen hkey) hunseen
  · exact absurd hgoes (Seat.not_goes_of_resting _)
  · cases r with
    | sent =>
      cases hqueue
      rw [Reading.served_sent]
      exact .looked .parked c d leg shot hleg (fun _ => rfl) hunseen
    | _ => cases hqueue
  · cases r <;> cases hqueue
  · cases hlook
    rcases hleg with hleg | hleg
    · cases hleg
      exact .looked r c d _ shot (Or.inr rfl) hseen hunseen
    · cases hleg

theorem goes_giveSent (h : (Reading.parked.table first second c
    ((Trip.put first second).seat d .attached false .sent)
    [.request ((Trip.put first second).request 1)] none).Goes b') :
    Stage first second late 6 (some d) (some c) b' := by
  obtain ⟨hr, _⟩ | ⟨y', msgs, hgoes, _⟩ | ⟨q, rest, present, hqueue, hpresent, rfl⟩ |
    ⟨d', rest, hqueue, _⟩ | ⟨d', shot, hlook, _⟩ := Reading.goes_cases h
  · cases hr
  · obtain ⟨hpt, _⟩ | ⟨hpt, _⟩ | ⟨hpt, _⟩ := Trip.goes_seat hgoes <;> cases hpt
  · cases hqueue
    rw [served_put first second c d present hpresent]
    exact .handed c d .heard .heard (Or.inl rfl) (Or.inl rfl)
  · cases hqueue
  · cases hlook

theorem goes_handed {pt pt' : Trip.Point} (hpt : pt.Back true) (hpt' : pt'.Back false)
    (h : (handedOver second c true pt
      ((Trip.put first second).seat d .attached false pt')).Goes b') :
    Stage first second late 6 (some d) (some c) b' := by
  obtain ⟨x', msgs, hgoes, rfl⟩ | ⟨y', msgs, hgoes, rfl⟩ | ⟨q, rest, present, hqueue, _⟩ |
    ⟨d', rest, hqueue, _⟩ | ⟨d', shot, hlook, _⟩ := goes_pair h
  · obtain ⟨pt₁, hpt₁, rfl, rfl⟩ := Trip.back_of_goes hpt hgoes
    exact .handed c d pt₁ pt' hpt₁ hpt'
  · obtain ⟨pt₁, hpt₁, rfl, rfl⟩ := Trip.back_of_goes hpt' hgoes
    exact .handed c d pt pt₁ hpt hpt₁
  · cases hqueue
  · cases hqueue
  · cases hlook

/-- Whatever an actor does, the beat stays the same. -/
theorem Stage.goes (stage : Stage first second late n waiting launched b) (h : b.Goes b') :
    Stage first second late n waiting launched b' := by
  cases stage with
  | ready n p => exact absurd h p.not_goes_ready
  | trip n p c pt hp =>
    obtain ⟨pt', rfl⟩ := Lone.goes h
    exact .trip n p c pt' hp
  | launching => exact absurd h (not_goes_of_resting rfl rfl (by simp [owner]))
  | launched r c =>
    obtain ⟨r', rfl⟩ := Reading.goes h
    exact .launched r' c
  | looking r c =>
    obtain ⟨r', rfl⟩ := Reading.goes h
    exact .looking r' c
  | ahead r c d hearly => exact goes_ahead hearly h
  | behind r c d hsent => exact goes_behind hsent h
  | looked r c d leg shot hleg hseen hunseen => exact goes_looked hleg hseen hunseen h
  | owning n c hn =>
    obtain ⟨y', msgs, hgoes, _⟩ := Reading.goes_parked h
    exact absurd hgoes (Seat.not_goes_of_resting _)
  | hitting c d leg hleg =>
    obtain ⟨y', msgs, hgoes, rfl⟩ := Reading.goes_parked h
    obtain ⟨leg', hleg', rfl, rfl⟩ := goes_hit hleg hgoes
    exact .hitting c d leg' hleg'
  | giving c d =>
    obtain ⟨y', msgs, hgoes, rfl⟩ := Reading.goes_parked h
    obtain ⟨_, rfl, rfl⟩ | ⟨hpt, _⟩ | ⟨hpt, _⟩ := Trip.goes_seat hgoes
    · exact .giveSent c d
    · cases hpt
    · cases hpt
  | giveSent c d => exact goes_giveSent h
  | handed c d pt pt' hpt hpt' => exact goes_handed hpt hpt' h
  | collecting c pt hpt =>
    obtain ⟨pt', hpt', rfl⟩ := handedOver_goes hpt h
    exact .collecting c pt' hpt'
  | collected c pt hpt =>
    obtain ⟨pt', hpt', rfl⟩ := handedOver_goes hpt h
    exact .collected c pt' hpt'
  | resting n c => exact absurd h (not_goes_of_resting rfl rfl (by simp [quiet]))
  | inspecting c d =>
    obtain ⟨q, rest, hqueue⟩ | ⟨d', rest, hqueue, hlook, rfl⟩ | ⟨d', shot, hlook, _⟩ :=
      quiet_goes h
    · cases hqueue
    · cases hqueue
      exact .inspected c d _ _ (Or.inl rfl)
    · cases hlook
  | inspected c d leg shot hleg =>
    obtain ⟨q, rest, hqueue⟩ | ⟨d', rest, hqueue, _⟩ | ⟨d', shot', hlook, rfl⟩ := quiet_goes h
    · cases hqueue
    · cases hqueue
    · cases hlook
      exact .inspected c d _ _ (Or.inr rfl)

end Custody.Walkthrough
