import Custody.Proofs.Calls.Stock

/-!
# Runs in which nobody is killed

While no actor is killed, an actor stops only when nobody can reach it and it has nothing left to
do. So whoever could still hear from an actor finds it at work, and what is known about calls, about
the docket and about clients is kept by every step.
-/

namespace Custody

/-- No actor is killed. -/
def Label.Gentle : Label → Prop
  | .act (.killClient _) => False
  | .act .killStore => False
  | _ => True

/-- Anything may be done to the store but killing it. -/
def Rules.lenient : Rules where
  asks _ := True
  stops := True
  closes := True

theorem Label.Gentle.allow {l : Label} (gentle : l.Gentle) : Rules.lenient.Allow l := by
  cases l with
  | act a =>
    cases a with
    | call target k => cases target <;> trivial
    | killStore => exact gentle
    | _ => trivial
  | move m => trivial

namespace Cluster

variable {s t : Cluster} {es : List Event} {e : Event} {i : Nat} {m : Member} {job : Job}

/-- An actor whose handle is there is at work, and a store that has stopped has no messages. -/
structure Staffed (s : Cluster) : Prop where
  member : ∀ (i : Nat) m, s.members[i]? = some m → m.handle = true → m.running = true
  keeper : s.keeper.handle = true → s.keeper.running = true
  cleared : s.keeper.running = false → s.keeper.inbox.entries = []

theorem staffed_start (setup : Setup) : (start setup).Staffed where
  member i m hm _ := by
    simp only [start, List.getElem?_map, Option.map_eq_some_iff] at hm
    obtain ⟨client, _, rfl⟩ := hm
    rfl
  keeper _ := rfl
  cleared _ := rfl

theorem Staffed.change (staffed : s.Staffed)
    (hm : ∀ (i : Nat) m', t.members[i]? = some m' → ∃ m, s.members[i]? = some m ∧
      (m'.handle = true → m.handle = true ∧ (m.running = true → m'.running = true)))
    (hkeeper : t.keeper.handle = true → t.keeper.running = true)
    (hcleared : t.keeper.running = false → t.keeper.inbox.entries = []) : t.Staffed where
  member i m' hm' hhandle := by
    obtain ⟨m, hi, hsame⟩ := hm i m' hm'
    obtain ⟨hbefore, hrun⟩ := hsame hhandle
    exact hrun (staffed.member i m hi hbefore)
  keeper := hkeeper
  cleared := hcleared

theorem Staffed.onMember {f : Member → Member} (staffed : s.Staffed)
    (hf : ∀ m, s.members[i]? = some m → (f m).handle = true →
      m.handle = true ∧ (m.running = true → (f m).running = true)) :
    (s.onMember i f).Staffed := by
  refine staffed.change (fun j m' hm' => ?_) staffed.keeper staffed.cleared
  rcases onMember_cases hm' with ⟨rfl, m, hm, rfl⟩ | ⟨_, hm'⟩
  · exact ⟨m, hm, hf m hm⟩
  · exact ⟨m', hm', fun hhandle => ⟨hhandle, id⟩⟩

/-- What is true after every gentle run. -/
structure Kept (s : Cluster) (es : List Event) : Prop where
  attended : Attended Rules.lenient s
  staffed : s.Staffed
  traced : s.docket.Traced es
  booked : s.Booked es
  inTurn : s.InTurn es
  stocked : s.Stocked
  truthful : Truthful es

theorem kept_start (setup : Setup) : (start setup).Kept [] where
  attended := attended_start setup
  staffed := staffed_start setup
  traced := by
    have hnone : (start setup).docket = ⟨{}, [], fun _ => none⟩ := by
      refine docket_eq rfl rfl (funext fun x => ?_)
      cases x with
      | client i =>
        cases hm : (start setup).members[i]? with
        | none => rw [inquiry, hm, Option.bind_none]
        | some m =>
          simp only [start, List.getElem?_map, Option.map_eq_some_iff] at hm
          obtain ⟨client, hclient, rfl⟩ := hm
          simp [inquiry, start, hclient, Member.inquiry?, Member.start]
      | caller c => rfl
    rw [hnone]
    exact Docket.traced_start
  booked := booked_start setup
  inTurn := inTurn_start setup
  stocked := stocked_start setup
  truthful := truthful_nil

theorem Kept.running_of_work (kept : s.Kept es) (hm : s.members[i]? = some m)
    (hwork : m.work ≠ none) : m.running = true := by
  by_contra hstopped
  exact hwork ((kept.attended.orderly i m hm).1 (by simpa using hstopped))

theorem Kept.keeper_of_running (kept : s.Kept es) (hm : s.members[i]? = some m)
    (hrun : m.running = true) : s.keeper.running = true := by
  by_contra hstopped
  have hnone := kept.attended.outlived (by simpa using hstopped) i m hm
  rw [hrun] at hnone
  cases hnone

/-- Whoever waits for the store is there to hear from it. -/
theorem Kept.isPresent (kept : s.Kept es) {x : Requester} {q : Inquiry}
    (hq : s.inquiry x = some q) (hlive : q.live = true) (hopen : q.slot = .empty) :
    s.isPresent x = true := by
  cases x with
  | client i =>
    obtain ⟨m, w, hm, hw, _⟩ := inquiry_client.mp hq
    have hrun := kept.running_of_work hm (by simp [hw])
    simp [Cluster.isPresent, hm, hrun]
  | caller c =>
    obtain ⟨call, hcall, hinquiry⟩ := inquiry_caller.mp hq
    obtain ⟨_, _, hslot, hheeds⟩ := Call.target_of_inquiry hinquiry
    rcases Status.open_cases (hslot.trans hopen) with hgone | ⟨held, hpending⟩
    · rw [hgone, hlive] at hheeds
      cases hheeds
    · simp [Cluster.isPresent, hcall, Call.isPending, hpending, Status.isPending]

/-- An event that concerns neither the store nor a client's answers changes nothing. -/
theorem Kept.log (kept : s.Kept es) (haside : e.Aside) : s.Kept (es ++ [e]) where
  attended := kept.attended
  staffed := kept.staffed
  traced := by
    refine kept.traced.log ?_ ?_
    · rintro r v rfl
      exact haside
    · intro x hopens
      cases e <;> first | exact absurd haside id | cases hopens
  booked := kept.booked.stay rfl (fun i m hm => ⟨m, hm, fun job hjob => hjob⟩)
    (fun i m job hm hrun hjob => ⟨m, hm, hrun, hjob⟩) fun c => Iff.rfl
  inTurn := by
    refine kept.inTurn.log fun i => ?_
    cases e <;> first | exact absurd haside id | rfl
  stocked := kept.stocked
  truthful := by
    refine kept.truthful.snoc ?_
    rintro i job r rfl
    exact absurd haside id

/-- Steps that leave the store, the caches and the work in hand alone. -/
theorem Kept.change (kept : s.Kept es) (attended : Attended Rules.lenient t)
    (traced : t.docket.Traced es) (booked : t.Booked es)
    (hkeeper : t.keeper.running = s.keeper.running ∧ t.keeper.store = s.keeper.store ∧
      (t.keeper.handle = true → s.keeper.handle = true) ∧
      (t.keeper.running = false → t.keeper.inbox.entries.Sublist s.keeper.inbox.entries))
    (hm : ∀ (i : Nat) m', t.members[i]? = some m' → ∃ m, s.members[i]? = some m ∧
      m'.cache = m.cache ∧ m'.work = m.work ∧ m'.running = m.running ∧
      (m'.handle = true → m.handle = true) ∧ m'.inbox.entries.Sublist m.inbox.entries)
    (hcalls : s.calls.length ≤ t.calls.length) : t.Kept es where
  attended := attended
  staffed := by
    obtain ⟨hrun, _, hhandle, hentries⟩ := hkeeper
    refine kept.staffed.change ?_ ?_ ?_
    · intro i m' hm'
      obtain ⟨m, hi, _, _, hsame, hclosed, _⟩ := hm i m' hm'
      exact ⟨m, hi, fun h => ⟨hclosed h, fun hrun => hsame.trans hrun⟩⟩
    · exact fun h => hrun.trans (kept.staffed.keeper (hhandle h))
    · intro hstopped
      have hless := hentries hstopped
      rw [kept.staffed.cleared (hrun ▸ hstopped)] at hless
      exact List.sublist_nil.mp hless
  traced := traced
  booked := booked
  inTurn := by
    refine kept.inTurn.change hcalls fun i m' hm' => ?_
    obtain ⟨m, hi, _, hwork, _, _, hless⟩ := hm i m' hm'
    exact ⟨m, hi, hless, fun job slot hjob => ⟨slot, hwork ▸ hjob⟩⟩
  stocked := by
    refine kept.stocked.change hkeeper.2.1 fun i m' hm' hrun => ?_
    obtain ⟨m, hi, hcache, hwork, hsame, _⟩ := hm i m' hm'
    exact ⟨m, hi, hsame ▸ hrun, hcache, hwork⟩
  truthful := kept.truthful

/-- A step that changes one call, but not what has arrived there. -/
theorem Kept.marked {c : Nat} {call : Call} {status : Status} (kept : s.Kept es)
    (hcall : s.calls[c]? = some call) (hreceipt : status.receipt = call.status.receipt)
    (hheeds : status.heeds = call.status.heeds)
    (booked : (s.onCall c fun call => { call with status }).Booked es) :
    (s.onCall c fun call => { call with status }).Kept es := by
  refine kept.change (kept.attended.keeper rfl rfl rfl) ?_ booked
    ⟨rfl, rfl, id, fun _ => List.Sublist.refl _⟩
    (fun i m hm => ⟨m, hm, rfl, rfl, rfl, id, List.Sublist.refl _⟩) ?_
  · rw [docket_marked hcall hreceipt hheeds]
    exact kept.traced
  · rw [length_calls_onCall]

end Cluster

end Custody
