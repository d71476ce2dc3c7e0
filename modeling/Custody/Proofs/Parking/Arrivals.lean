import Custody.Proofs.Cluster.Load
import Custody.Proofs.Order.Issued
import Custody.Proofs.Parking.Keeping
import Custody.Proofs.Store.Visits

/-!
# Looks among requests

The store takes up one message after another: requests, and among them wishes for a snapshot, some
of which nobody waits for any more. What it decides on the requests, and what it holds after each of
them, would be the same without the looks, or with more of them, at whatever places they come in.
-/

namespace Custody

/-- The second list is the first with elements put in for which `p` holds. -/
inductive Inserted {α : Type} (p : α → Prop) : List α → List α → Prop where
  | nil : Inserted p [] []
  | kept (a : α) {as bs : List α} (h : Inserted p as bs) : Inserted p (a :: as) (a :: bs)
  | put (a : α) (ha : p a) {as bs : List α} (h : Inserted p as bs) : Inserted p as (a :: bs)

/-- What the store takes up: a request, with those who can be reached at the time, or the wish of a
caller for a snapshot, who may have gone away. -/
inductive Arrival where
  | request (v : Visit Requester)
  | look (c : Nat) (gone : Bool)

def Arrival.visit? : Arrival → Option (Visit Requester)
  | request v => some v
  | look _ _ => none

def Arrival.IsLook (a : Arrival) : Prop := a.visit? = none

def visits (as : List Arrival) : List (Visit Requester) := as.filterMap Arrival.visit?

/-- What an arrival makes of the store, and what the store says to it. -/
def Store.take (s : Store Requester) : Arrival → Store Requester × Event
  | .request v =>
    ((s.handle v.present v.request).1, .served v.request (s.handle v.present v.request).2)
  | .look c _ => (s, .observed c s.snapshot)

/-- What a list of arrivals makes of the store, and what the store says to them, one by one. -/
def Store.process (s : Store Requester) : List Arrival → Store Requester × List Event
  | [] => (s, [])
  | a :: rest =>
    let later := Store.process (s.take a).1 rest
    (later.1, (s.take a).2 :: later.2)

/-- The store has decided on a request. -/
def Event.decides : Event → Bool
  | served _ _ => true
  | _ => false

/-- What the store decides on the requests among the arrivals, in order. -/
def Store.decisions (s : Store Requester) (as : List Arrival) : List Event :=
  (s.process as).2.filter Event.decides

section

variable {α : Type} {p : α → Prop} {as bs cs ds : List α} {a : α}

theorem Inserted.refl (p : α → Prop) (as : List α) : Inserted p as as := by
  induction as with
  | nil => exact .nil
  | cons a rest ih => exact .kept a ih

theorem Inserted.append (h : Inserted p as bs) (h' : Inserted p cs ds) :
    Inserted p (as ++ cs) (bs ++ ds) := by
  induction h with
  | nil => exact h'
  | kept a _ ih => exact .kept a ih
  | put a ha _ ih => exact .put a ha ih

/-- A list with elements put in can be cut where it was cut. -/
theorem Inserted.split {early late : List α} (h : Inserted p as (early ++ late)) :
    ∃ early' late', as = early' ++ late' ∧ Inserted p early' early ∧ Inserted p late' late := by
  induction early generalizing as with
  | nil => exact ⟨[], as, rfl, .nil, h⟩
  | cons b rest ih =>
    rw [List.cons_append] at h
    cases h with
    | kept _ h =>
      obtain ⟨early', late', rfl, hearly, hlate⟩ := ih h
      exact ⟨b :: early', late', rfl, .kept b hearly, hlate⟩
    | put _ hb h =>
      obtain ⟨early', late', rfl, hearly, hlate⟩ := ih h
      exact ⟨early', late', rfl, .put b hb hearly, hlate⟩

end

variable {as bs : List Arrival}

/-- Nothing that is put in is a request. -/
theorem visits_inserted (h : Inserted Arrival.IsLook as bs) : visits bs = visits as := by
  induction h with
  | nil => rfl
  | kept a _ ih =>
    cases a with
    | request v => exact congrArg (v :: ·) ih
    | look c gone => exact ih
  | put a ha _ ih =>
    cases a with
    | request v => cases ha
    | look c gone => exact ih

namespace Store

variable {s : Store Requester}

theorem process_cons (s : Store Requester) (a : Arrival) (rest : List Arrival) :
    s.process (a :: rest) =
      (((s.take a).1.process rest).1, (s.take a).2 :: ((s.take a).1.process rest).2) := rfl

theorem process_append (s : Store Requester) (as bs : List Arrival) :
    s.process (as ++ bs) = (((s.process as).1.process bs).1,
      (s.process as).2 ++ ((s.process as).1.process bs).2) := by
  induction as generalizing s with
  | nil => rfl
  | cons a rest ih => rw [List.cons_append, process_cons, ih, process_cons, List.cons_append]

/-- The looks are passed over: the store becomes what the requests make of it. -/
theorem process_store (s : Store Requester) (as : List Arrival) :
    (s.process as).1 = s.after (visits as) := by
  induction as generalizing s with
  | nil => rfl
  | cons a rest ih =>
    cases a with
    | request v => exact ih _
    | look c gone => exact ih s

/-- What it decides is the record of the requests. -/
theorem decisions_eq (s : Store Requester) (as : List Arrival) :
    s.decisions as = (s.record (visits as)).map fun d => .served d.1 d.2 := by
  induction as generalizing s with
  | nil => rfl
  | cons a rest ih =>
    cases a with
    | request v => exact congrArg (_ :: ·) (ih (s.handle v.present v.request).1)
    | look c gone => exact ih s

/-- Looks among the requests change no decision and no later store. -/
theorem process_inserted (h : Inserted Arrival.IsLook as bs) (s : Store Requester) :
    s.decisions bs = s.decisions as ∧ ∀ early late, bs = early ++ late →
      ∃ early' late', as = early' ++ late' ∧ Inserted Arrival.IsLook early' early ∧
        Inserted Arrival.IsLook late' late ∧ (s.process early).1 = (s.process early').1 := by
  constructor
  · rw [decisions_eq, decisions_eq, visits_inserted h]
  · rintro early late rfl
    obtain ⟨early', late', hsplit, hearly, hlate⟩ := h.split
    refine ⟨early', late', hsplit, hearly, hlate, ?_⟩
    rw [process_store, process_store, visits_inserted hearly]

end Store

/-- Whoever has gone away hears nothing. -/
theorem Call.receive_eq_self {call : Call} {news : Slot Answer}
    (h : call.isPending = false) : call.receive news = call := by
  obtain ⟨target, key, status⟩ := call
  cases status with
  | pending held slot => cases h
  | _ => rfl

namespace Cluster

variable {setup : Setup} {s t : Cluster} {l : Label} {labels : List Label} {e : Event}
  {es now : List Event} {c : Nat} {rest : List Command}

/-- What the store takes up in a step. -/
def arrival? (s : Cluster) : Label → Option Arrival
  | .move .serve =>
    match s.keeper.running, s.keeper.inbox.entries with
    | true, .request r :: _ => some (.request ⟨r, s.isPresent⟩)
    | true, .snapshot c :: _ => some (.look c !s.isPresent (.caller c))
    | _, _ => none
  | _ => none

/-- What the store takes up in a run, in order. -/
def arrivals (s : Cluster) : List Label → List Arrival
  | [] => []
  | l :: rest => (s.arrival? l).toList ++
    match s.step l with
    | some (t, _) => t.arrivals rest
    | none => []

theorem arrivals_snoc (h : s.run labels = some (t, es)) (l : Label) :
    s.arrivals (labels ++ [l]) = s.arrivals labels ++ (t.arrival? l).toList := by
  induction labels generalizing s es with
  | nil =>
    obtain ⟨rfl, rfl⟩ := Prod.mk.inj (Option.some.inj h)
    simp only [List.nil_append, arrivals]
    cases s.step l <;> simp
  | cons k rest ih =>
    obtain ⟨u, now, later, hstep, hrest, rfl⟩ := run_cons h
    simp only [List.cons_append, arrivals, hstep]
    rw [ih hrest, List.append_assoc]

/-- A step of somebody else is no arrival. -/
theorem arrival?_of_aside (h : s.step l = some (t, now)) (aside : now.filter Event.byStore = []) :
    s.arrival? l = none := by
  unfold arrival?
  split
  · obtain ⟨e, hserve, rfl⟩ := step_move h
    obtain ⟨_, _, ⟨r, _, _, rfl⟩ | ⟨c, _, _, rfl⟩⟩ := serve_cases hserve
    · cases aside
    · cases aside
  · rfl

/-- What the store becomes and says in one step is what comes of the arrival, if there is one. -/
theorem arrival_step (h : s.step l = some (t, now)) :
    now.filter Event.byStore = (s.keeper.store.process (s.arrival? l).toList).2 ∧
      (s.arrival? l ≠ none → s.keeper.running = true) ∧
      (t.keeper.running = true → s.keeper.running = true ∧
        t.keeper.store = (s.keeper.store.process (s.arrival? l).toList).1) := by
  have haside : now.filter Event.byStore = [] → (t.keeper.running = true →
      s.keeper.running = true ∧ t.keeper.store = s.keeper.store) →
      now.filter Event.byStore = (s.keeper.store.process (s.arrival? l).toList).2 ∧
        (s.arrival? l ≠ none → s.keeper.running = true) ∧
        (t.keeper.running = true → s.keeper.running = true ∧
          t.keeper.store = (s.keeper.store.process (s.arrival? l).toList).1) := by
    intro aside hkept
    rw [arrival?_of_aside h aside, aside]
    exact ⟨rfl, fun hsome => absurd rfl hsome, hkept⟩
  have tends := tends_step h
  generalize t.keeper = k at tends haside ⊢
  cases tends with
  | kept _ aside => exact haside aside fun hrun => ⟨hrun, rfl⟩
  | closed => exact haside rfl fun hrun => ⟨hrun, rfl⟩
  | sent command _ _ aside => exact haside aside fun hrun => ⟨hrun, rfl⟩
  | withdrew who => exact haside rfl fun hrun => ⟨hrun, rfl⟩
  | decided r rest hrun hentries =>
    have harrival : s.arrival? (.move .serve) = some (.request ⟨r, s.isPresent⟩) := by
      simp [arrival?, hrun, hentries]
    rw [harrival]
    exact ⟨rfl, fun _ => hrun, fun _ => ⟨hrun, rfl⟩⟩
  | shown c rest hrun hentries =>
    have harrival : s.arrival? (.move .serve) = some (.look c !s.isPresent (.caller c)) := by
      simp [arrival?, hrun, hentries]
    rw [harrival]
    exact ⟨rfl, fun _ => hrun, fun _ => ⟨hrun, rfl⟩⟩
  | stopped _ aside => exact haside aside nofun

/-- What the store says in a run is what comes of its arrivals, and while it runs it holds what they
have made of an empty store. -/
theorem process_run (h : (start setup).run labels = some (s, es)) :
    es.filter Event.byStore = (Store.process {} ((start setup).arrivals labels)).2 ∧
      (s.keeper.running = true →
        s.keeper.store = (Store.process {} ((start setup).arrivals labels)).1) := by
  refine history_induction (P := fun labels s es => es.filter Event.byStore =
      (Store.process {} ((start setup).arrivals labels)).2 ∧ (s.keeper.running = true →
        s.keeper.store = (Store.process {} ((start setup).arrivals labels)).1)) ?_ ?_ h
  · exact ⟨rfl, fun _ => rfl⟩
  · rintro past u before l t now hpast ⟨hevents, hstore⟩ hstep
    obtain ⟨hnow, harrives, hafter⟩ := arrival_step hstep
    rw [arrivals_snoc hpast, List.filter_append, hevents, Store.process_append, hnow]
    refine ⟨?_, fun hrun => ?_⟩
    · cases harrival : u.arrival? l with
      | none => rfl
      | some a => rw [hstore (harrives (by simp [harrival]))]
    · obtain ⟨hbefore, hsame⟩ := hafter hrun
      rw [hsame, hstore hbefore]

/-- A look concerns nobody but the one who asked for it, and not even that one when it has gone
away. -/
theorem serve_look (hentries : s.keeper.inbox.entries = .snapshot c :: rest)
    (h : s.serve = some (t, e)) :
    t.keeper.store = s.keeper.store ∧ t.requests = s.requests ∧ t.members = s.members ∧
      (∀ x, t.isPresent x = s.isPresent x) ∧ (∀ d, d ≠ c → t.calls[d]? = s.calls[d]?) ∧
      (s.isPresent (.caller c) = false → t.calls = s.calls) := by
  obtain ⟨_, rest', ⟨r, hentries', _⟩ | ⟨d, hentries', rfl, _⟩⟩ := serve_cases h
  · cases hentries.symm.trans hentries'
  · obtain ⟨hc, rfl⟩ := List.cons.inj (hentries.symm.trans hentries')
    obtain rfl := Command.snapshot.inj hc
    have hrequests : s.requests = rest.filterMap Command.request? := by
      rw [requests, hentries]
      rfl
    refine ⟨rfl, hrequests.symm, rfl, ?_, fun d hd => ?_, fun hgone => ?_⟩
    · rintro (i | d)
      · rfl
      · simp only [isPresent, calls_onCall]
        split
        · simp only [Option.any_map, isPending_receive]
          rfl
        · rfl
    · rw [calls_onCall, if_neg (Ne.symm hd)]
      rfl
    · refine List.ext_getElem? fun d => ?_
      rw [calls_onCall]
      split
      · rename_i hd
        subst hd
        cases hcall : s.calls[c]? with
        | none => simp [hcall]
        | some call =>
          simp only [isPresent, hcall, Option.any_some] at hgone
          simp [hcall, Call.receive_eq_self hgone]
      · rfl

end Cluster

end Custody
