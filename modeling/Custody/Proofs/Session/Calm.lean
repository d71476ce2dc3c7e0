import Custody.Proofs.Calls.Booking
import Custody.Proofs.Cluster.Settle

/-!
# A cluster whose clients do nothing

While nobody calls the clients and all handles are there, only the store can move, and the callers
that take note of their outcomes. A message that the store finds alone in its inbox is decided
first; after it the callers take note, each for itself and in any order.
-/

namespace Custody

/-- What the caller of the store makes of a fate. -/
def Fate.outcome : Fate → Outcome
  | answered r => .answered (.store r)
  | discarded => .failed (.failure .replyDropped)

/-- A call of which the fate was told, when its caller has taken note. -/
def Call.close (call : Call) : Option Fate → Call
  | some f => if call.isPending then { call with status := .ended f.outcome } else call
  | none => call

namespace Cluster

/-- All handles are there, and the clients have nothing to do. -/
structure Calm (s : Cluster) : Prop where
  running : s.keeper.running = true
  handle : s.keeper.handle = true
  idle : ∀ (i : Nat) m, s.members[i]? = some m →
    m.work = none ∧ m.inbox.entries = [] ∧ m.handle = true

/-- No caller has an outcome to take note of. -/
def Noted (s : Cluster) : Prop :=
  ∀ (c : Nat) call, s.calls[c]? = some call → s.outcome? call = none

/-- A call after its caller has taken note of the outcome, if there is one. -/
def note (s : Cluster) (call : Call) : Call :=
  match s.outcome? call with
  | some o => { call with status := .ended o }
  | none => call

variable {s t u : Cluster} {mv : Move} {moves : List Move} {e : Event} {es : List Event}
  {c : Nat} {call : Call}

theorem calm_start (setup : Setup) : (start setup).Calm where
  running := rfl
  handle := rfl
  idle i m hm := by
    simp only [start, List.getElem?_map, Option.map_eq_some_iff] at hm
    obtain ⟨client, _, rfl⟩ := hm
    exact ⟨rfl, rfl, rfl⟩

theorem Calm.congr (calm : s.Calm) (hrunning : t.keeper.running = s.keeper.running)
    (hhandle : t.keeper.handle = s.keeper.handle) (hmembers : t.members = s.members) : t.Calm where
  running := hrunning.trans calm.running
  handle := hhandle.trans calm.handle
  idle := hmembers ▸ calm.idle

theorem Calm.fire (calm : s.Calm) (h : s.fire mv = some (t, e)) :
    mv = .serve ∨ ∃ c, mv = .finish c := by
  cases mv with
  | serve => exact Or.inl rfl
  | begin i =>
    obtain ⟨m, job, rest, cache, hm, _, _, hentries, _⟩ := begin_cases h
    rw [(calm.idle i m hm).2.1] at hentries
    cases hentries
  | resume i =>
    obtain ⟨m, job, slot, answer, cache, r, hm, hwork, _⟩ := resume_cases h
    rw [(calm.idle i m hm).1] at hwork
    cases hwork
  | leave i =>
    obtain ⟨m, hm, _, _, _, hreaches, _⟩ := leave_cases h
    simp [reaches, (calm.idle i m hm).2.2] at hreaches
  | retire =>
    obtain ⟨_, _, hreaches, _⟩ := retire_cases h
    simp [reachesStore, calm.handle] at hreaches
  | finish c => exact Or.inr ⟨c, rfl⟩

theorem Noted.not_finish (noted : s.Noted) (h : s.fire (.finish c) = some (t, e)) : False := by
  obtain ⟨call, o, hcall, ho, _⟩ := finish_cases h
  rw [noted c call hcall] at ho
  cases ho

theorem run_move_cons (h : s.run ((mv :: moves).map .move) = some (t, es)) :
    ∃ u e later, s.fire mv = some (u, e) ∧ u.run (moves.map .move) = some (t, later) := by
  obtain ⟨u, now, later, hstep, hrest, _⟩ := run_cons h
  obtain ⟨e, hfire, _⟩ := step_move hstep
  exact ⟨u, e, later, hfire, hrest⟩

/-- Where there is no message and no outcome, nothing moves. -/
theorem Calm.run_of_still (calm : s.Calm) (hentries : s.keeper.inbox.entries = [])
    (noted : s.Noted) (h : s.run (moves.map .move) = some (t, es)) : t = s := by
  cases moves with
  | nil => exact (Prod.mk.inj (Option.some.inj h)).1.symm
  | cons mv rest =>
    obtain ⟨u, e, later, hfire, _⟩ := run_move_cons h
    obtain rfl | ⟨c, rfl⟩ := calm.fire hfire
    · obtain ⟨_, rest, ⟨r, hmessage, _⟩ | ⟨c, hmessage, _⟩⟩ := serve_cases hfire
      · rw [hentries] at hmessage
        cases hmessage
      · rw [hentries] at hmessage
        cases hmessage
    · exact (noted.not_finish hfire).elim

/-- A message is served before anything else happens. -/
theorem Calm.run_of_message (calm : s.Calm) (hentries : s.keeper.inbox.entries ≠ [])
    (noted : s.Noted) (h : s.run (moves.map .move) = some (t, es)) (hrest : t.atRest = true) :
    ∃ u e rest later, s.serve = some (u, e) ∧ u.run (List.map .move rest) = some (t, later) := by
  cases moves with
  | nil =>
    obtain rfl := (Prod.mk.inj (Option.some.inj h)).1
    exact absurd (entries_of_serve calm.running (fire_of_atRest hrest .serve)) hentries
  | cons mv rest =>
    obtain ⟨u, e, later, hfire, hlater⟩ := run_move_cons h
    obtain rfl | ⟨c, rfl⟩ := calm.fire hfire
    · exact ⟨u, e, rest, later, hfire, hlater⟩
    · exact (noted.not_finish hfire).elim

/-! ## Taking note -/

theorem outcome?_congr (h : t.members = s.members) (call : Call) :
    t.outcome? call = s.outcome? call := by
  have hloss : t.lossOf call = s.lossOf call := by
    unfold lossOf nameOf
    rw [h]
  unfold outcome?
  rw [hloss]

theorem note_congr (h : t.members = s.members) (call : Call) : t.note call = s.note call := by
  rw [note, note, outcome?_congr h]

/-- Whoever has taken note has no more to take note of. -/
theorem note_note (s : Cluster) (call : Call) : s.note (s.note call) = s.note call := by
  cases ho : s.outcome? call with
  | none =>
    have hsame : s.note call = call := by rw [note, ho]
    rw [hsame, hsame]
  | some o =>
    have hended : s.note call = { call with status := .ended o } := by rw [note, ho]
    rw [hended]
    rfl

theorem note_of_none (h : s.outcome? call = none) : s.note call = call := by rw [note, h]

/-- When the callers have taken note, each call is what its outcome makes of it, and nothing else
has changed. -/
theorem Calm.run_of_heard (calm : s.Calm) (hentries : s.keeper.inbox.entries = [])
    (h : s.run (moves.map .move) = some (t, es)) (hrest : t.atRest = true) :
    t.keeper = s.keeper ∧ t.members = s.members ∧
      ∀ c : Nat, t.calls[c]? = s.calls[c]?.map s.note := by
  induction moves generalizing s es with
  | nil =>
    obtain rfl := (Prod.mk.inj (Option.some.inj h)).1
    refine ⟨rfl, rfl, fun c => ?_⟩
    cases hcall : s.calls[c]? with
    | none => rfl
    | some call =>
      have hfinish := fire_of_atRest hrest (.finish c)
      have hnone : s.outcome? call = none := by
        rw [Option.eq_none_iff_forall_ne_some]
        simpa [Cluster.fire, finish, hcall] using hfinish
      rw [Option.map_some, note_of_none hnone]
  | cons mv rest ih =>
    obtain ⟨u, e, later, hfire, hlater⟩ := run_move_cons h
    obtain rfl | ⟨id, rfl⟩ := calm.fire hfire
    · obtain ⟨_, rest, ⟨r, hmessage, _⟩ | ⟨c, hmessage, _⟩⟩ := serve_cases hfire
      · rw [hentries] at hmessage
        cases hmessage
      · rw [hentries] at hmessage
        cases hmessage
    · obtain ⟨call, o, hcall, ho, rfl, _⟩ := finish_cases hfire
      obtain ⟨hkeeper, hmembers, hcalls⟩ := ih
        (s := s.onCall id fun c => { c with status := .ended o }) (calm.congr rfl rfl rfl)
        hentries hlater
      refine ⟨hkeeper, hmembers, fun c => ?_⟩
      have hnote : { call with status := Status.ended o } = s.note call := by rw [note, ho]
      rw [hcalls, calls_onCall]
      split
      · rename_i hid
        subst hid
        rw [hcall, Option.map_some, Option.map_some, Option.map_some, hnote,
          note_congr (members_onCall _ _ _), note_note]
      · exact congrFun (congrArg Option.map (funext (note_congr (members_onCall _ _ _)))) _

/-! ## One request -/

/-- An open call on the store ends with the fate that it hears of. -/
theorem note_hear_of_open {op : Operation} (htarget : call.target = .store op)
    (hopen : call.status = .pending false .empty) (f : Option Fate) :
    s.note (call.hear f) = call.close f := by
  obtain ⟨target, key, status⟩ := call
  simp only at htarget hopen
  subst htarget hopen
  cases f with
  | none => rfl
  | some f => cases f <;> rfl

/-- A call that is over hears nothing. -/
theorem note_hear_of_over (hover : call.isPending = false) (f : Option Fate) :
    s.note (call.hear f) = call.close f := by
  obtain ⟨target, key, status⟩ := call
  cases status with
  | pending held slot => cases hover
  | _ => cases f <;> rfl

/-- The cluster after a request and all that follows from it, in whatever order. -/
theorem Calm.run_of_request (calm : s.Calm) {r : Request Requester}
    (hentries : s.keeper.inbox.entries = [.request r]) (noted : s.Noted)
    (hcalls : ∀ (c : Nat) call, s.calls[c]? = some call → call.isPending = false ∨
      (∃ op, call.target = .store op) ∧ call.status = .pending false .empty)
    (h : s.run (moves.map .move) = some (t, es)) (hrest : t.atRest = true) :
    t.Calm ∧ t.keeper.inbox.entries = [] ∧
      t.keeper.store = (s.keeper.store.handle s.isPresent r).1 ∧
      ∀ c : Nat, t.calls[c]? = s.calls[c]?.map fun call => call.close
        (((s.keeper.store.handle s.isPresent r).2.fates r.who).lookup (.caller c)) := by
  obtain ⟨u, e, rest, later, hserve, hlater⟩ :=
    calm.run_of_message (by rw [hentries]; nofun) noted h hrest
  obtain ⟨_, left, ⟨q, hmessage, rfl, _⟩ | ⟨c, hmessage, _⟩⟩ := serve_cases hserve
  · rw [hentries] at hmessage
    obtain ⟨hcommand, rfl⟩ := List.cons.inj hmessage
    obtain rfl := Command.request.inj hcommand
    have calm' : ((s.stored [] (s.keeper.store.handle s.isPresent r).1).tell
        ((s.keeper.store.handle s.isPresent r).2.fates r.who)).Calm := by
      refine ⟨by rw [keeper_tell]; exact calm.running, by rw [keeper_tell]; exact calm.handle, ?_⟩
      intro i m' hm'
      rw [members_tell, members_stored] at hm'
      obtain ⟨m, hm, rfl⟩ := Option.map_eq_some_iff.mp hm'
      obtain ⟨hidle, hinbox, hhandle⟩ := calm.idle i m hm
      exact ⟨by rw [Member.hear, hidle]; rfl, hinbox, hhandle⟩
    obtain ⟨hkeeper, hmembers, hnoted⟩ :=
      calm'.run_of_heard (by rw [keeper_tell]; rfl) hlater hrest
    rw [keeper_tell] at hkeeper
    refine ⟨calm'.congr (by rw [hkeeper, keeper_tell]) (by rw [hkeeper, keeper_tell]) hmembers,
      by rw [hkeeper]; rfl, by rw [hkeeper]; rfl, fun c => ?_⟩
    rw [hnoted, calls_tell, calls_stored]
    cases hcall : s.calls[c]? with
    | none => rfl
    | some call =>
      simp only [Option.map_some]
      rcases hcalls c call hcall with hover | ⟨⟨op, htarget⟩, hopen⟩
      · rw [note_hear_of_over hover]
      · rw [note_hear_of_open htarget hopen]
  · rw [hentries] at hmessage
    cases hmessage

/-- The same for a snapshot request whose caller has gone away: nobody hears of it. -/
theorem Calm.run_of_snapshot (calm : s.Calm) {c : Nat}
    (hentries : s.keeper.inbox.entries = [.snapshot c]) (noted : s.Noted)
    (hover : ∀ call, s.calls[c]? = some call → call.isPending = false)
    (h : s.run (moves.map .move) = some (t, es)) (hrest : t.atRest = true) :
    t.Calm ∧ t.keeper.inbox.entries = [] ∧ t.keeper.store = s.keeper.store ∧
      t.calls = s.calls := by
  obtain ⟨u, e, rest, later, hserve, hlater⟩ :=
    calm.run_of_message (by rw [hentries]; nofun) noted h hrest
  obtain ⟨_, left, ⟨q, hmessage, _⟩ | ⟨id, hmessage, rfl, _⟩⟩ := serve_cases hserve
  · rw [hentries] at hmessage
    cases hmessage
  · rw [hentries] at hmessage
    obtain ⟨hcommand, rfl⟩ := List.cons.inj hmessage
    obtain rfl := Command.snapshot.inj hcommand
    have hcalls : (onCall (s.stored [] s.keeper.store) c
        (·.receive (.full (.snapshot s.keeper.store.snapshot)))).calls = s.calls := by
      refine List.ext_getElem? fun id => ?_
      rw [calls_onCall, calls_stored]
      split
      · rename_i hid
        subst hid
        cases hcall : s.calls[c]? with
        | none => rfl
        | some call =>
          obtain ⟨target, key, status⟩ := call
          have hcall' := hover _ hcall
          cases status with
          | pending held slot => cases hcall'
          | _ => rfl
      · rfl
    have calm' := calm.congr (t := onCall (s.stored [] s.keeper.store) c
      (·.receive (.full (.snapshot s.keeper.store.snapshot)))) rfl rfl rfl
    have noted' : Noted (onCall (s.stored [] s.keeper.store) c
        (·.receive (.full (.snapshot s.keeper.store.snapshot)))) := fun id call hcall =>
      (outcome?_congr (s := s) rfl call).trans (noted id call (hcalls ▸ hcall))
    obtain rfl := calm'.run_of_still rfl noted' hlater
    exact ⟨calm', rfl, rfl, hcalls⟩

end Cluster

end Custody
