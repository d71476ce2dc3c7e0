import Custody.Proofs.Store.Single
import Custody.Proofs.Walkthrough.Hand

/-!
# Trips to the store

An action for which a client asks the store, and is granted a value, takes the call past five
points, and the client's cache goes with it. While one client is on its trip and the other rests,
nothing else happens at the table.
-/

namespace Custody.Walkthrough

variable {b b' : Table} {i c : Nat} {x x' y y' : Seat} {t : Task} {sent queue : List Command}
  {look : Option Query} {store : Store Requester} {manner : Manner} {held : Bool}

/-! ## Seats -/

/-- A client without a call does nothing. -/
theorem Seat.not_goes_of_resting (cache : Cache) : ¬ Seat.Goes i ⟨cache, none⟩ x' sent := by
  intro h
  cases h with
  | asks t _ htask => cases htask
  | settles t _ _ htask => cases htask
  | resumes t _ _ _ _ htask => cases htask
  | notes t _ htask => cases htask

theorem Seat.hear_none (x : Seat) : x.hear none = x := by
  obtain ⟨cache, task⟩ := x
  cases task with
  | none => rfl
  | some t =>
    obtain ⟨c, a, manner, held, leg⟩ := t
    cases leg <;> rfl

/-- What can happen at a table with two seats. -/
theorem goes_pair (h : Table.Goes ⟨store, queue, [x, y], look⟩ b') :
    (∃ x' sent, x.Goes 0 x' sent ∧ b' = ⟨store, queue ++ sent, [x', y], look⟩) ∨
    (∃ y' sent, y.Goes 1 y' sent ∧ b' = ⟨store, queue ++ sent, [x, y'], look⟩) ∨
    (∃ r rest present, queue = .request r :: rest ∧ present (.client 0) = true ∧
      b' = Table.served ⟨store, queue, [x, y], look⟩ present r rest) ∨
    (∃ c rest, queue = .snapshot c :: rest ∧ look = some ⟨c, .sent⟩ ∧
      b' = ⟨store, rest, [x, y], some ⟨c, .told store.snapshot⟩⟩) ∨
    ∃ c s, look = some ⟨c, .told s⟩ ∧ b' = ⟨store, queue, [x, y], some ⟨c, .noted s⟩⟩ := by
  cases h with
  | serves r rest present hqueue hpresent =>
    exact Or.inr (Or.inr (Or.inl ⟨r, rest, present, hqueue, hpresent 0 Nat.zero_lt_two, rfl⟩))
  | observes c rest hqueue hquery =>
    exact Or.inr (Or.inr (Or.inr (Or.inl ⟨c, rest, hqueue, hquery, rfl⟩)))
  | seat i z z' sent hz hgoes =>
    obtain _ | _ | i := i
    · obtain rfl := Option.some.inj hz
      exact Or.inl ⟨z', sent, hgoes, rfl⟩
    · obtain rfl := Option.some.inj hz
      exact Or.inr (Or.inl ⟨z', sent, hgoes, rfl⟩)
    · cases hz
  | notices c s hquery => exact Or.inr (Or.inr (Or.inr (Or.inr ⟨c, s, hquery, rfl⟩)))

/-! ## Trips -/

/-- An action with the client's cache before it takes up the action, after it has asked, and after
it has heard; and what it hears and replies. -/
structure Trip where
  action : Action
  idle : Cache
  asked : Cache
  done : Cache
  answer : Value
  reply : ClientReply
  starts : idle.start key action = (asked, none)
  finishes : asked.finish key action (some (.granted answer)) = (done, reply)

inductive Trip.Point where
  | queued
  | sent
  | heard
  | told
  | noted

namespace Trip

/-- A get of a key that the client does not have. -/
def get (v : Value) : Trip where
  action := .get
  idle := ∅
  asked := ∅
  done := .single key v
  answer := v
  reply := .fetched v
  starts := Cache.get_of_empty key
  finishes := rfl

/-- A put of the one key that the client has. -/
def put (v u : Value) : Trip where
  action := .put u
  idle := .single key v
  asked := .single key u
  done := ∅
  answer := u
  reply := .released
  starts := Cache.put_of_single
  finishes := Cache.put_back

def request (p : Trip) (i : Nat) : Request Requester := ⟨p.action.operation, key, .client i⟩

def leg (p : Trip) : Point → Leg
  | .queued => .queued
  | .sent => .asked .empty
  | .heard => .asked (.full (.granted p.answer))
  | .told => .told p.reply
  | .noted => .noted p.reply

def cache (p : Trip) : Point → Cache
  | .queued => p.idle
  | .sent | .heard => p.asked
  | .told | .noted => p.done

/-- The client on its trip, where `c` is the call. -/
def seat (p : Trip) (c : Nat) (manner : Manner) (held : Bool) (pt : Point) : Seat :=
  ⟨p.cache pt, some ⟨c, p.action, manner, held, p.leg pt⟩⟩

variable {p : Trip} {pt : Point}

/-- A client goes on by itself, except while the store has to answer or the caller to ask. -/
theorem goes_seat (h : (p.seat c manner held pt).Goes i x' sent) :
    (pt = .queued ∧ x' = p.seat c manner held .sent ∧ sent = [.request (p.request i)]) ∨
      (pt = .heard ∧ x' = p.seat c manner held .told ∧ sent = []) ∨
      (pt = .told ∧ held = false ∧ x' = p.seat c manner held .noted ∧ sent = []) := by
  cases h with
  | asks t after htask hleg hstart =>
    obtain rfl := Option.some.inj htask
    cases pt with
    | queued =>
      obtain rfl := congrArg Prod.fst (p.starts.symm.trans hstart)
      exact Or.inl ⟨rfl, rfl, rfl⟩
    | _ => cases hleg
  | settles t after r htask hleg hstart =>
    obtain rfl := Option.some.inj htask
    cases pt with
    | queued => cases p.starts.symm.trans hstart
    | _ => cases hleg
  | resumes t slot answer after r htask hleg hanswer hfinish =>
    obtain rfl := Option.some.inj htask
    cases pt with
    | sent =>
      cases hleg
      cases hanswer
    | heard =>
      cases hleg
      obtain rfl := Option.some.inj hanswer
      obtain ⟨rfl, rfl⟩ := Prod.mk.inj (p.finishes.symm.trans hfinish)
      exact Or.inr (Or.inl ⟨rfl, rfl, rfl⟩)
    | _ => cases hleg
  | notes t r htask hleg hheld =>
    obtain rfl := Option.some.inj htask
    obtain rfl : held = false := hheld
    cases pt with
    | told =>
      cases hleg
      exact Or.inr (Or.inr ⟨rfl, rfl, rfl, rfl⟩)
    | _ => cases hleg

theorem noted_of_leg {r : ClientReply} (h : p.leg pt = .noted r) : pt = .noted ∧ r = p.reply := by
  cases pt with
  | noted => exact ⟨rfl, (Leg.noted.inj h).symm⟩
  | _ => cases h

theorem hear_sent (p : Trip) (c : Nat) (manner : Manner) (held : Bool) :
    (p.seat c manner held .sent).hear (some (.answered (.granted p.answer))) =
      p.seat c manner held .heard := rfl

end Trip

/-! ## One client alone -/

/-- A trip of client `i`, the store before and after its request, and what the client that rests
has cached. -/
structure Lone where
  trip : Trip
  i : Nat
  before : Store Requester
  after : Store Requester
  other : Cache
  seated : i < 2
  serves : ∀ present, ∃ verdict, before.handle present (trip.request i) = (after, verdict) ∧
    verdict.fates (.client i) = [(.client i, .answered (.granted trip.answer))]

namespace Lone

variable {p : Lone} {pt : Trip.Point}

/-- The client on its trip is `x`. -/
def seats (p : Lone) (x : Seat) : List Seat := (List.replicate 2 ⟨p.other, none⟩).set p.i x

def ready (p : Lone) : Table := { store := p.before, seats := p.seats ⟨p.trip.idle, none⟩ }

def finished (p : Lone) : Table := { store := p.after, seats := p.seats ⟨p.trip.done, none⟩ }

def storeAt (p : Lone) : Trip.Point → Store Requester
  | .queued | .sent => p.before
  | .heard | .told | .noted => p.after

def queueAt (p : Lone) : Trip.Point → List Command
  | .sent => [.request (p.trip.request p.i)]
  | .queued | .heard | .told | .noted => []

/-- The walkthrough waits for call `c`. -/
def table (p : Lone) (c : Nat) (pt : Trip.Point) : Table where
  store := p.storeAt pt
  queue := p.queueAt pt
  seats := p.seats (p.trip.seat c .attached false pt)

theorem getElem?_seats (p : Lone) (x : Seat) (i : Nat) :
    (p.seats x)[i]? = if p.i = i then some x else (List.replicate 2 ⟨p.other, none⟩)[i]? := by
  rw [seats, List.getElem?_set, List.length_replicate, if_pos p.seated]

theorem seat_at (p : Lone) (x : Seat) : (p.seats x)[p.i]? = some x := by
  rw [getElem?_seats, if_pos rfl]

theorem set_seats (p : Lone) (x x' : Seat) : (p.seats x).set p.i x' = p.seats x' := List.set_set ..

theorem goes_seats (hx : (p.seats x)[i]? = some y) (h : y.Goes i y' sent) :
    i = p.i ∧ x.Goes p.i y' sent := by
  rw [getElem?_seats] at hx
  split at hx
  · rename_i hi
    obtain rfl := Option.some.inj hx
    subst hi
    exact ⟨rfl, h⟩
  · obtain rfl := List.eq_of_mem_replicate (List.mem_of_getElem? hx)
    exact absurd h (Seat.not_goes_of_resting p.other)

/-- Only the client on its trip hears anything. -/
theorem hear_seats (p : Lone) (x : Seat) (f : Fate) :
    (p.seats x).mapIdx
        (fun i y => y.hear ([(Requester.client p.i, f)].lookup (.client i))) =
      p.seats (x.hear (some f)) := by
  refine List.ext_getElem? fun i => ?_
  rw [List.getElem?_mapIdx, getElem?_seats, getElem?_seats]
  split
  · rename_i hi
    subst hi
    simp
  · cases hy : (List.replicate 2 (⟨p.other, none⟩ : Seat))[i]? with
    | none => rfl
    | some y =>
      obtain rfl := List.eq_of_mem_replicate (List.mem_of_getElem? hy)
      rfl

theorem served_sent (p : Lone) (c : Nat) (present : Requester → Bool) :
    (p.table c .sent).served present (p.trip.request p.i) [] = p.table c .heard := by
  obtain ⟨verdict, hhandle, hfates⟩ := p.serves present
  simp only [Table.served, Table.hear, table, storeAt, hhandle]
  simp only [Trip.request, hfates, hear_seats, Trip.hear_sent, queueAt]

/-- Whoever moves brings the client on its way. -/
theorem goes (h : (p.table c pt).Goes b') : ∃ pt', b' = p.table c pt' := by
  cases h with
  | serves r rest present hqueue =>
    cases pt with
    | sent =>
      obtain ⟨hr, rfl⟩ := List.cons.inj hqueue
      obtain rfl := Command.request.inj hr
      exact ⟨.heard, p.served_sent c present⟩
    | _ => cases hqueue
  | observes _ _ _ hquery => cases hquery
  | notices _ _ hquery => cases hquery
  | seat i y y' sent hy hgoes =>
    obtain ⟨rfl, htrip⟩ := goes_seats hy hgoes
    obtain ⟨rfl, rfl, rfl⟩ | ⟨rfl, rfl, rfl⟩ | ⟨rfl, _, rfl, rfl⟩ := Trip.goes_seat htrip
    · exact ⟨.sent, congrArg (Table.mk _ _ · _) (p.set_seats _ _)⟩
    · exact ⟨.told, congrArg (Table.mk _ _ · _) (p.set_seats _ _)⟩
    · exact ⟨.noted, congrArg (Table.mk _ _ · _) (p.set_seats _ _)⟩

/-- The call ends after all. -/
theorem noted_of_still (h : (p.table c pt).Still) : pt = .noted := by
  have htask := h.tasks p.i _ _ (p.seat_at _) rfl
  cases pt with
  | queued => exact htask.elim
  | sent => cases h.queue
  | heard => cases htask
  | told => cases htask
  | noted => rfl

end Lone

/-- What the walkthrough begins with: the first client reads the key and writes it, and the second
client reads it. -/
def lone (first : Value) : List Lone :=
  [{ trip := .get 0, i := 0, before := {}, after := .single key 0 true none, other := ∅,
     seated := Nat.zero_lt_two,
     serves := fun present => ⟨_, Store.read_empty present key _, rfl⟩ },
   { trip := .put 0 first, i := 0, before := .single key 0 true none,
     after := .single key first false none, other := ∅, seated := Nat.zero_lt_two,
     serves := fun present => ⟨_, Store.write_owned present key first 0 _, rfl⟩ },
   { trip := .get first, i := 1, before := .single key first false none,
     after := .single key first true none, other := ∅, seated := Nat.one_lt_two,
     serves := fun present => ⟨_, Store.read_free present key first _, rfl⟩ }]

end Custody.Walkthrough
