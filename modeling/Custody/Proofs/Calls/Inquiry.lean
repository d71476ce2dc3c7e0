import Custody.Proofs.Calls.Docket
import Custody.Proofs.Cluster.Inversion

/-!
# The docket of a cluster

A client's work in hand is an inquiry, and so is a call on the store, also after its caller has
taken note of the outcome. Calls on clients and for snapshots are none, so what becomes of them
does not show on the docket.
-/

namespace Custody

namespace Status

/-- What has arrived at a caller, whether or not it has taken note of it. -/
def receipt : Status → Slot Answer
  | pending _ slot => slot
  | ended (.answered a) => .full a
  | ended (.failed _) => .dropped
  | ended .void => .spent
  | taken a => .full a
  | cancelled => .empty

def heeds : Status → Bool
  | cancelled => false
  | _ => true

end Status

def Call.inquiry? (c : Call) : Option Inquiry :=
  match c.target with
  | .store op => some ⟨op, c.key, c.status.receipt, c.status.heeds⟩
  | _ => none

def Member.inquiry? (m : Member) : Option Inquiry :=
  m.work.map fun w => ⟨w.job.action.operation, w.job.key, w.answer.map .store, true⟩

theorem Call.inquiry?_of_store {c : Call} {op : Operation} (h : c.target = .store op) :
    c.inquiry? = some ⟨op, c.key, c.status.receipt, c.status.heeds⟩ := by
  rw [inquiry?, h]

theorem Call.inquiry?_of_other {c : Call} (h : ∀ op, c.target ≠ .store op) :
    c.inquiry? = none := by
  rw [inquiry?]
  split
  · rename_i op htarget
    exact absurd htarget (h op)
  · rfl

/-- Only a call on the store is an inquiry. -/
theorem Call.target_of_inquiry {c : Call} {q : Inquiry} (h : c.inquiry? = some q) :
    c.target = .store q.op ∧ c.key = q.key ∧ c.status.receipt = q.slot ∧
      c.status.heeds = q.live := by
  unfold inquiry? at h
  split at h
  · rename_i op htarget
    obtain rfl := Option.some.inj h
    exact ⟨htarget, rfl, rfl, rfl⟩
  · cases h

theorem Call.inquiry?_hear (c : Call) (f : Option Fate) :
    (c.hear f).inquiry? = c.inquiry?.map (·.hear f) := by
  obtain ⟨target, key, status⟩ := c
  cases f with
  | none =>
    simp only [Call.hear, Inquiry.hear]
    exact Option.map_id'.symm
  | some f =>
    cases target with
    | client i a manner => cases status <;> rfl
    | snapshot => cases status <;> rfl
    | store op =>
      cases status with
      | pending held slot => rfl
      | ended o => cases o <;> rfl
      | taken a => rfl
      | cancelled => rfl

theorem Member.inquiry?_hear (m : Member) (f : Option Fate) :
    (m.hear f).inquiry? = m.inquiry?.map (·.hear f) := by
  obtain ⟨name, inbox, handle, running, cache, work⟩ := m
  cases work with
  | none => rfl
  | some w =>
    obtain ⟨job, slot⟩ := w
    cases f with
    | none => rfl
    | some f => cases slot <;> cases f <;> rfl

namespace Cluster

def inquiry (s : Cluster) : Requester → Option Inquiry
  | .client i => s.members[i]?.bind (·.inquiry?)
  | .caller c => s.calls[c]?.bind (·.inquiry?)

def docket (s : Cluster) : Docket := ⟨s.keeper.store, s.requests, s.inquiry⟩

variable {s t : Cluster} {i c : Nat} {q : Inquiry}

theorem inquiry_client : s.inquiry (.client i) = some q ↔ ∃ m w, s.members[i]? = some m ∧
    m.work = some w ∧ q = ⟨w.job.action.operation, w.job.key, w.answer.map .store, true⟩ := by
  simp only [inquiry, Option.bind_eq_some_iff, Member.inquiry?, Option.map_eq_some_iff]
  constructor
  · rintro ⟨m, hm, w, hw, rfl⟩
    exact ⟨m, w, hm, hw, rfl⟩
  · rintro ⟨m, w, hm, hw, rfl⟩
    exact ⟨m, hm, w, hw, rfl⟩

theorem inquiry_caller : s.inquiry (.caller c) = some q ↔
    ∃ call, s.calls[c]? = some call ∧ call.inquiry? = some q :=
  Option.bind_eq_some_iff

theorem inquiry_of_store {call : Call} {op : Operation} (hcall : s.calls[c]? = some call)
    (htarget : call.target = .store op) :
    s.inquiry (.caller c) = some ⟨op, call.key, call.status.receipt, call.status.heeds⟩ :=
  inquiry_caller.mpr ⟨call, hcall, Call.inquiry?_of_store htarget⟩

theorem inquiry_of_other {call : Call} (hcall : s.calls[c]? = some call)
    (hother : ∀ op, call.target ≠ .store op) : s.inquiry (.caller c) = none := by
  rw [inquiry, hcall, Option.bind_some, Call.inquiry?_of_other hother]

theorem inquiry_of_work {m : Member} {w : Work} (hm : s.members[i]? = some m)
    (hw : m.work = some w) : s.inquiry (.client i) =
      some ⟨w.job.action.operation, w.job.key, w.answer.map .store, true⟩ :=
  inquiry_client.mpr ⟨m, w, hm, hw, rfl⟩

theorem inquiry_of_idle {m : Member} (hm : s.members[i]? = some m) (hidle : m.work = none) :
    s.inquiry (.client i) = none := by
  simp [inquiry, hm, Member.inquiry?, hidle]

theorem inquiry_congr (hmembers : t.members = s.members) (hcalls : t.calls = s.calls) :
    t.inquiry = s.inquiry := by
  funext x
  cases x with
  | client i => rw [inquiry, inquiry, hmembers]
  | caller c => rw [inquiry, inquiry, hcalls]

theorem inquiry_tell (s : Cluster) (fates : List (Requester × Fate)) (x : Requester) :
    (s.tell fates).inquiry x = (s.inquiry x).map (·.hear (fates.lookup x)) := by
  cases x with
  | client i =>
    rw [inquiry, members_tell, inquiry, Option.bind_map, Option.map_bind]
    exact congrArg _ (funext fun m => m.inquiry?_hear _)
  | caller c =>
    rw [inquiry, calls_tell, inquiry, Option.bind_map, Option.map_bind]
    exact congrArg _ (funext fun call => call.inquiry?_hear _)

/-- A change to a call shows only if the inquiry changes. -/
theorem inquiry_onCall {f : Call → Call}
    (hf : ∀ call, s.calls[c]? = some call → (f call).inquiry? = call.inquiry?) :
    (s.onCall c f).inquiry = s.inquiry := by
  funext x
  cases x with
  | client i => rfl
  | caller c' =>
    rw [inquiry, inquiry, calls_onCall]
    split
    · rename_i hc
      subst hc
      cases hcall : s.calls[c]? with
      | none => rfl
      | some call => exact hf call hcall
    · rfl

theorem inquiry_onMember (s : Cluster) (i : Nat) (f : Member → Member) :
    (s.onMember i f).inquiry =
      Function.update s.inquiry (.client i) ((s.members[i]?.map f).bind (·.inquiry?)) := by
  funext x
  cases x with
  | client j =>
    rw [inquiry, members_onMember]
    by_cases hij : i = j
    · subst hij
      simp
    · rw [if_neg hij, Function.update_of_ne (by simpa using Ne.symm hij), inquiry]
  | caller c => rw [Function.update_of_ne (by simp), inquiry, inquiry, calls_onMember]

theorem inquiry_onMember_of_same {f : Member → Member} (hf : ∀ m, (f m).work = m.work) :
    (s.onMember i f).inquiry = s.inquiry := by
  rw [inquiry_onMember, Option.bind_map]
  have hsame : s.members[i]?.bind (Member.inquiry? ∘ f) = s.inquiry (.client i) := by
    rw [inquiry]
    refine congrArg (s.members[i]?.bind ·) (funext fun m => ?_)
    rw [Function.comp, Member.inquiry?, hf, Member.inquiry?]
  rw [hsame, Function.update_eq_self]

/-- A new call has the next number, and it is an inquiry if it is a call on the store. -/
theorem inquiry_enter (s : Cluster) (target : Target) (k : Key) (status : Status) :
    (s.enter target k status).inquiry =
      Function.update s.inquiry (.caller s.calls.length) (Call.inquiry? ⟨target, k, status⟩) := by
  funext x
  cases x with
  | client j =>
    rw [Function.update_of_ne (by simp)]
    rfl
  | caller c =>
    rw [inquiry, enter, List.getElem?_append]
    by_cases hc : c = s.calls.length
    · subst hc
      simp
    · rw [Function.update_of_ne (by simpa using hc), inquiry]
      split
      · rfl
      · rename_i hlt
        have hnone : s.calls[c]? = none := List.getElem?_eq_none_iff.mpr (by omega)
        rw [hnone, List.getElem?_eq_none_iff.mpr]
        simp only [List.length_singleton]
        omega

theorem inquiry_next (s : Cluster) : s.inquiry (.caller s.calls.length) = none := by
  simp [inquiry]

theorem docket_eq {d : Docket} (hstore : t.keeper.store = d.store) (hqueue : t.requests = d.queue)
    (hinquiry : t.inquiry = d.inquiry) : t.docket = d := by
  obtain ⟨store, queue, inquiry⟩ := d
  simp only [docket, hstore, hqueue, hinquiry]

/-! ## Each step on the docket -/

theorem docket_served {r : Request Requester} {rest : List Command} :
    ((s.stored rest (s.keeper.store.handle s.isPresent r).1).tell
      ((s.keeper.store.handle s.isPresent r).2.fates r.who)).docket =
      s.docket.served s.isPresent r (rest.filterMap Command.request?) := by
  refine docket_eq ?_ ?_ ?_
  · rw [keeper_tell]
    rfl
  · rw [requests, keeper_tell]
    rfl
  · funext x
    rw [inquiry_tell, inquiry_congr (s := s) (members_stored _ _ _) (calls_stored _ _ _)]
    rfl

theorem docket_asked {m : Member} {job : Job} {rest : List Job} {cache : Cache}
    (hm : s.members[i]? = some m) :
    ((s.onMember i fun _ => { m.take cache rest with work := some ⟨job, .empty⟩ }).send
      (.request ⟨job.action.operation, job.key, .client i⟩)).docket =
      s.docket.opened ⟨job.action.operation, job.key, .client i⟩ := by
  refine docket_eq rfl ?_ ?_
  · rw [requests, entries_send, List.filterMap_append]
    rfl
  · rw [inquiry_congr (members_send _ _) (calls_send _ _), inquiry_onMember, hm]
    rfl

theorem docket_posted {op : Operation} {k : Key} :
    ((s.enter (.store op) k (.pending false .empty)).send
      (.request ⟨op, k, .caller s.calls.length⟩)).docket =
      s.docket.opened ⟨op, k, .caller s.calls.length⟩ := by
  refine docket_eq rfl ?_ ?_
  · rw [requests, entries_send, List.filterMap_append]
    rfl
  · rw [inquiry_congr (members_send _ _) (calls_send _ _), inquiry_enter]
    rfl

/-- A client that puts its work aside. -/
theorem docket_closed {m : Member} {f : Member → Member} (hm : s.members[i]? = some m)
    (hidle : (f m).work = none) : (s.onMember i f).docket = s.docket.closed i := by
  refine docket_eq rfl rfl ?_
  rw [inquiry_onMember, hm]
  simp [Member.inquiry?, hidle, Docket.closed, docket]

/-- A new call that is no inquiry. -/
theorem docket_entered {target : Target} {k : Key} {status : Status}
    (hother : ∀ op, target ≠ .store op) : (s.enter target k status).docket = s.docket := by
  refine docket_eq rfl rfl ?_
  rw [inquiry_enter, Call.inquiry?_of_other hother, ← s.inquiry_next, Function.update_eq_self]
  rfl

theorem docket_onMember_of_same {f : Member → Member} (hf : ∀ m, (f m).work = m.work) :
    (s.onMember i f).docket = s.docket :=
  docket_eq rfl rfl (inquiry_onMember_of_same hf)

/-- A change of a call's status that does not change what has arrived. -/
theorem docket_marked {call : Call} {status : Status} (hcall : s.calls[c]? = some call)
    (hreceipt : status.receipt = call.status.receipt)
    (hheeds : status.heeds = call.status.heeds) :
    (s.onCall c fun call => { call with status }).docket = s.docket := by
  refine docket_eq rfl rfl (inquiry_onCall fun call' hcall' => ?_)
  obtain rfl := Option.some.inj (hcall.symm.trans hcall')
  simp only [Call.inquiry?, hreceipt, hheeds]

/-- What becomes of a call on a client, or for a snapshot, does not show. -/
theorem docket_onCall_of_other {call : Call} {f : Call → Call} (hcall : s.calls[c]? = some call)
    (hother : ∀ op, call.target ≠ .store op) (htarget : (f call).target = call.target) :
    (s.onCall c f).docket = s.docket := by
  refine docket_eq rfl rfl (inquiry_onCall fun call' hcall' => ?_)
  obtain rfl := Option.some.inj (hcall.symm.trans hcall')
  rw [Call.inquiry?_of_other (htarget ▸ hother), Call.inquiry?_of_other hother]

/-- A caller of the store that goes away takes its request back if it can. -/
theorem docket_abandoned {call : Call} (hcall : s.calls[c]? = some call)
    (hq : call.inquiry? = some q) :
    ((s.withdraw (.caller c)).onCall c fun call => { call with status := .cancelled }).docket =
      (s.docket.abandoned c q).thinned (s.withdraw (.caller c)).requests := by
  refine docket_eq rfl rfl ?_
  obtain ⟨htarget, hkey, _, _⟩ := Call.target_of_inquiry hq
  funext x
  by_cases hx : x = .caller c
  · subst hx
    rw [inquiry, calls_onCall, if_pos rfl]
    have hsame : (s.withdraw (.caller c)).calls[c]? = some call := hcall
    rw [hsame]
    simp only [Option.map_some, Option.bind_some, Call.inquiry?, htarget, Status.receipt,
      Status.heeds, hkey, Docket.abandoned, Docket.thinned, Function.update_self]
  · simp only [Docket.abandoned, Docket.thinned, Function.update_of_ne hx]
    cases x with
    | client j => rfl
    | caller c' =>
      have hc : c ≠ c' := by
        rintro rfl
        exact hx rfl
      rw [inquiry, calls_onCall, if_neg hc]
      rfl

end Cluster

end Custody
