import Custody.Proofs.Session.Counter
import Custody.Proofs.Session.Ledger

/-!
# The roll of a store's callers

In a session without clients the calls agree with the tickets of a desk: the call of a pending
ticket is a call on the store of which nothing has been heard, and any other call is over. What the
desk says of a ticket, the store says of the call that was made in that step.
-/

namespace Custody

namespace Session

/-- `origins` gives, for each call, its ticket. -/
structure Roll (origins : List Ticket) (calls : List Call) (present : Ticket → Bool) : Prop where
  length : origins.length = calls.length
  nodup : origins.Nodup
  made : ∀ t, present t = true → t ∈ origins
  state : ∀ (id : Nat) t call, origins[id]? = some t → calls[id]? = some call →
    (present t = true ∧ (∃ op, call.target = .store op) ∧ call.status = .pending false .empty) ∨
      (present t = false ∧ call.status.isListed = false)

/-- The caller with ticket `t`. -/
def caller (origins : List Ticket) (t : Ticket) : Requester := .caller (origins.idxOf t)

variable {origins : List Ticket} {calls calls' : List Call} {present present' : Ticket → Bool}
  {s before after : Cluster} {t n : Ticket} {id c : Nat} {call : Call} {o : Outcome}
  {standing : Standing}

theorem roll_start : Roll [] [] fun _ => false where
  length := rfl
  nodup := List.nodup_nil
  made t ht := by cases ht
  state id t call ht := by cases ht

theorem Roll.congr (roll : Roll origins calls present) (h : ∀ t, present' t = present t) :
    Roll origins calls present' := by
  obtain rfl : present' = present := funext h
  exact roll

theorem Roll.exists_ticket (roll : Roll origins calls present) (hcall : calls[c]? = some call) :
    ∃ t, origins[c]? = some t := by
  have hlt := (List.getElem?_eq_some_iff.mp hcall).1
  exact ⟨_, List.getElem?_eq_getElem (roll.length ▸ hlt)⟩

theorem Roll.exists_call (roll : Roll origins calls present) (hid : origins[id]? = some t) :
    ∃ call, calls[id]? = some call := by
  have hlt := (List.getElem?_eq_some_iff.mp hid).1
  exact ⟨_, List.getElem?_eq_getElem (roll.length ▸ hlt)⟩

/-- A pending ticket has an open call. -/
theorem Roll.open_of_present (roll : Roll origins calls present) (ht : present t = true) :
    ∃ (id : Nat) (call : Call) (op : Operation), origins[id]? = some t ∧ calls[id]? = some call ∧
      call.target = .store op ∧ call.status = .pending false .empty := by
  obtain ⟨id, hid⟩ := List.mem_iff_getElem?.mp (roll.made t ht)
  obtain ⟨call, hcall⟩ := roll.exists_call hid
  rcases roll.state id t call hid hcall with ⟨_, ⟨op, htarget⟩, hopen⟩ | ⟨hgone, _⟩
  · exact ⟨id, call, op, hid, hcall, htarget, hopen⟩
  · rw [ht] at hgone
    cases hgone

theorem isPending_of_unlisted (h : call.status.isListed = false) : call.isPending = false := by
  rw [Call.isPending]
  cases hstatus : call.status with
  | pending held slot =>
    rw [hstatus] at h
    cases h
  | _ => rfl

theorem Roll.call_cases (roll : Roll origins calls present) (hcall : calls[c]? = some call) :
    call.isPending = false ∨
      (∃ op, call.target = .store op) ∧ call.status = .pending false .empty := by
  obtain ⟨t, ht⟩ := roll.exists_ticket hcall
  rcases roll.state c t call ht hcall with ⟨_, hopen⟩ | ⟨_, hover⟩
  · exact Or.inr hopen
  · exact Or.inl (isPending_of_unlisted hover)

/-- Nobody has an outcome to take note of. -/
theorem Roll.noted (roll : Roll origins s.calls present) : s.Noted := by
  intro c call hcall
  unfold Cluster.outcome?
  rcases roll.call_cases hcall with hover | ⟨_, hopen⟩
  · obtain ⟨target, key, status⟩ := call
    cases status with
    | pending held slot => cases hover
    | _ => rfl
  · rw [hopen]

/-- The caller of a ticket is there as long as the ticket is pending. -/
theorem Roll.isPresent_caller (roll : Roll origins s.calls present) (ht : t ∈ origins) :
    s.isPresent (caller origins t) = present t := by
  have hid : origins[origins.idxOf t]? = some t := List.getElem?_idxOf ht
  obtain ⟨call, hcall⟩ := roll.exists_call hid
  rw [caller, Cluster.isPresent, hcall, Option.any_some]
  rcases roll.state _ t call hid hcall with ⟨hpresent, _, hopen⟩ | ⟨hgone, hover⟩
  · rw [hpresent, Call.isPending, hopen]
    rfl
  · rw [hgone, isPending_of_unlisted hover]

/-! ## Changes -/

theorem Roll.push (roll : Roll origins calls present) (hn : n ∉ origins)
    (hother : ∀ t, t ≠ n → present' t = present t)
    (hstate : (present' n = true ∧ (∃ op, call.target = .store op) ∧
      call.status = .pending false .empty) ∨
        (present' n = false ∧ call.status.isListed = false)) :
    Roll (origins ++ [n]) (calls ++ [call]) present' where
  length := by rw [List.length_append, List.length_append, roll.length]; rfl
  nodup := by
    rw [List.nodup_append]
    refine ⟨roll.nodup, List.nodup_singleton n, ?_⟩
    rintro t ht _ hn' rfl
    rw [List.mem_singleton.mp hn'] at ht
    exact hn ht
  made t ht := by
    by_cases htn : t = n
    · exact List.mem_append_right _ (List.mem_singleton.mpr htn)
    · rw [hother t htn] at ht
      exact List.mem_append_left _ (roll.made t ht)
  state id t call' hid hcall := by
    rcases entry_snoc hid with hid | ⟨rfl, rfl⟩
    · have hlt := (List.getElem?_eq_some_iff.mp hid).1
      rw [List.getElem?_append_left (roll.length ▸ hlt)] at hcall
      rw [hother t fun heq => hn (heq ▸ List.mem_of_getElem? hid)]
      exact roll.state id t call' hid hcall
    · rw [roll.length, List.getElem?_concat_length] at hcall
      obtain rfl := Option.some.inj hcall
      exact hstate

/-- Ticket `m` is given up, and with it its call. -/
theorem Roll.giveUp {m : Ticket} (roll : Roll origins s.calls present)
    (hid : origins[id]? = some m) :
    Roll origins (s.giveUp id).calls fun t => present t && !(m == t) where
  length := by rw [Cluster.length_calls_giveUp, roll.length]
  nodup := roll.nodup
  made t ht := roll.made t (Bool.and_eq_true_iff.mp ht).1
  state c t call hc hcall := by
    rw [Cluster.calls_giveUp] at hcall
    split at hcall
    · rename_i heq
      subst heq
      obtain ⟨old, hold, rfl⟩ := Option.map_eq_some_iff.mp hcall
      obtain rfl := Option.some.inj (hid.symm.trans hc)
      refine Or.inr ⟨by simp, ?_⟩
      split
      · rfl
      · rename_i hover
        simpa using hover
    · rename_i hne
      have htm : (m == t) = false := by
        rw [beq_eq_false_iff_ne]
        rintro rfl
        obtain ⟨hlt, heq⟩ := List.getElem?_eq_some_iff.mp hid
        obtain ⟨hlt', heq'⟩ := List.getElem?_eq_some_iff.mp hc
        exact hne ((List.Nodup.getElem_inj_iff roll.nodup).mp (heq.trans heq'.symm))
      rw [htm, Bool.not_false, Bool.and_true]
      exact roll.state c t call hc hcall

/-! ## Fates -/

theorem lookup_eq_some_iff_mem {α β : Type} [BEq α] [LawfulBEq α] {l : List (α × β)} {a : α}
    {b : β} (nodup : (l.map Prod.fst).Nodup) : l.lookup a = some b ↔ (a, b) ∈ l := by
  rw [List.lookup_eq_some_iff]
  constructor
  · rintro ⟨early, late, rfl, _⟩
    exact List.mem_append_right _ List.mem_cons_self
  · intro hmem
    obtain ⟨early, late, rfl⟩ := List.append_of_mem hmem
    refine ⟨early, late, rfl, fun p hp => ?_⟩
    rw [List.map_append, List.nodup_append] at nodup
    rw [bne_iff_ne]
    exact (nodup.2.2 p.1 (List.mem_map_of_mem hp) a (List.mem_map_of_mem List.mem_cons_self)).symm

/-- A call hears what its ticket hears. -/
theorem lookup_caller {fates : List (Ticket × Fate)} (nodup : origins.Nodup)
    (hfates : ∀ f ∈ fates, f.1 ∈ origins) (hid : origins[id]? = some t) :
    (fates.map fun p => (caller origins p.1, p.2)).lookup (.caller id) = fates.lookup t := by
  induction fates with
  | nil => rfl
  | cons f rest ih =>
    have hsame : (Requester.caller id == caller origins f.1) = (t == f.1) := by
      have hf := hfates f List.mem_cons_self
      obtain ⟨hlt, rfl⟩ := List.getElem?_eq_some_iff.mp hid
      rw [Bool.eq_iff_iff, beq_iff_eq, beq_iff_eq, caller, Requester.caller.injEq]
      constructor
      · rintro rfl
        exact List.getElem_idxOf hlt
      · intro heq
        rw [← heq, List.Nodup.idxOf_getElem nodup]
    rw [List.map_cons, List.lookup_cons, List.lookup_cons, hsame,
      ih fun f hf => hfates f (List.mem_cons_of_mem _ hf)]

/-- Calls that are told their fates end, and so their tickets are not pending any more. -/
theorem Roll.tell {fates : List (Ticket × Fate)} (roll : Roll origins s.calls present)
    (hfates : ∀ f ∈ fates, f.1 ∈ origins) (nodup : (fates.map Prod.fst).Nodup)
    (hcalls : ∀ c : Nat, after.calls[c]? = s.calls[c]?.map fun call =>
      call.close ((fates.map fun p => (caller origins p.1, p.2)).lookup (.caller c)))
    (hpresent : ∀ t, present' t = true ↔ present t = true ∧ ∀ f, (t, f) ∉ fates) :
    Roll origins after.calls present' where
  length := by
    refine roll.length.trans (Nat.le_antisymm ?_ ?_)
    · rw [← List.getElem?_eq_none_iff, ← Option.map_eq_none_iff, ← hcalls]
      exact List.getElem?_eq_none le_rfl
    · rw [← List.getElem?_eq_none_iff, hcalls, Option.map_eq_none_iff]
      exact List.getElem?_eq_none le_rfl
  nodup := roll.nodup
  made t ht := roll.made t ((hpresent t).mp ht).1
  state id t call' hid hcall' := by
    rw [hcalls] at hcall'
    obtain ⟨call, hcall, rfl⟩ := Option.map_eq_some_iff.mp hcall'
    rw [lookup_caller roll.nodup hfates hid]
    rcases roll.state id t call hid hcall with ⟨ht, htarget, hopen⟩ | ⟨ht, hover⟩
    · cases hf : fates.lookup t with
      | none =>
        refine Or.inl ⟨(hpresent t).mpr ⟨ht, fun f hmem => ?_⟩, htarget, hopen⟩
        rw [(lookup_eq_some_iff_mem nodup).mpr hmem] at hf
        cases hf
      | some f =>
        refine Or.inr ⟨?_, ?_⟩
        · rw [Bool.eq_false_iff, ne_eq, hpresent]
          exact fun h => h.2 f ((lookup_eq_some_iff_mem nodup).mp hf)
        · have hpending : call.isPending = true := by rw [Call.isPending, hopen]; rfl
          rw [Call.close, if_pos hpending]
          cases f <;> rfl
    · refine Or.inr ⟨?_, ?_⟩
      · rw [Bool.eq_false_iff, ne_eq, hpresent, ht]
        exact fun h => Bool.false_ne_true h.1
      · cases fates.lookup t with
        | none => exact hover
        | some f =>
          rw [Call.close, if_neg (by simp [isPending_of_unlisted hover])]
          exact hover

/-! ## Reports -/

theorem mem_rows_iff {x : (Nat × Call) × Nat} : x ∈ rows origins after ↔
    origins[x.2]? = some x.1.1 ∧ after.calls[x.2]? = some x.1.2 := by
  obtain ⟨⟨n, call⟩, id⟩ := x
  rw [rows, List.mk_mem_zipIdx_iff_getElem?, List.getElem?_zip_eq_some]

theorem mem_ended : (n, o) ∈ ended origins before after ↔ ∃ (id : Nat) (call : Call),
    origins[id]? = some n ∧ after.calls[id]? = some call ∧ Cluster.reported call = true ∧
      before.tells? id = none ∧ call.status.tells? = some o := by
  rw [ended_eq_rows, List.mem_filterMap]
  constructor
  · rintro ⟨⟨⟨m, call⟩, id⟩, hmem, hrow⟩
    obtain rfl := endedRow_label _ _ hrow
    obtain ⟨hid, hcall⟩ := mem_rows_iff.mp hmem
    unfold endedRow at hrow
    split at hrow
    · rename_i hnew
      obtain ⟨hreported, hbefore⟩ := Bool.and_eq_true_iff.mp hnew
      obtain ⟨o', htells, hrow⟩ := Option.map_eq_some_iff.mp hrow
      cases hrow
      exact ⟨id, call, hid, hcall, hreported, Option.isNone_iff_eq_none.mp hbefore, htells⟩
    · cases hrow
  · rintro ⟨id, call, hid, hcall, hreported, hbefore, htells⟩
    refine ⟨((n, call), id), mem_rows_iff.mpr ⟨hid, hcall⟩, ?_⟩
    simp [endedRow, hreported, hbefore, htells]

theorem mem_opened : (n, standing) ∈ opened origins after ↔ ∃ (id : Nat) (call : Call),
    origins[id]? = some n ∧ after.calls[id]? = some call ∧ Cluster.reported call = true ∧
      after.standing id call = some standing := by
  rw [opened_eq_rows, List.mem_filterMap]
  constructor
  · rintro ⟨⟨⟨m, call⟩, id⟩, hmem, hrow⟩
    obtain rfl := openedRow_label _ _ hrow
    obtain ⟨hid, hcall⟩ := mem_rows_iff.mp hmem
    unfold openedRow at hrow
    split at hrow
    · rename_i hreported
      obtain ⟨st, hstanding, hst⟩ := Option.map_eq_some_iff.mp hrow
      cases hst
      exact ⟨id, call, hid, hcall, hreported, hstanding⟩
    · cases hrow
  · rintro ⟨id, call, hid, hcall, hreported, hstanding⟩
    refine ⟨((n, call), id), mem_rows_iff.mpr ⟨hid, hcall⟩, ?_⟩
    simp [openedRow, hreported, hstanding]

/-- The open calls are those of the pending tickets. -/
theorem Roll.mem_opened (roll : Roll origins after.calls present) :
    (n, standing) ∈ opened origins after ↔ standing = .waiting ∧ present n = true := by
  rw [Session.mem_opened]
  constructor
  · rintro ⟨id, call, hid, hcall, _, hstanding⟩
    rcases roll.state id n call hid hcall with ⟨hpresent, ⟨op, htarget⟩, hopen⟩ | ⟨_, hover⟩
    · rw [Cluster.standing, hopen, htarget] at hstanding
      exact ⟨(Option.some.inj hstanding).symm, hpresent⟩
    · have hstands := isSome_standing after id call
      rw [hstanding, hover] at hstands
      cases hstands
  · rintro ⟨rfl, hpresent⟩
    obtain ⟨id, call, op, hid, hcall, htarget, hopen⟩ := roll.open_of_present hpresent
    refine ⟨id, call, hid, hcall, ?_, ?_⟩
    · rw [Cluster.reported, htarget]
    · rw [Cluster.standing, hopen, htarget]

/-- A call that has not ended yet, or was not made. -/
theorem tells?_of_open (h : ∀ call, before.calls[id]? = some call → call.isPending = true) :
    before.tells? id = none := by
  rw [Cluster.tells?]
  cases hcall : before.calls[id]? with
  | none => rfl
  | some call =>
    obtain ⟨target, key, status⟩ := call
    have hpending := h _ hcall
    cases status with
    | pending held slot => rfl
    | _ => cases hpending

theorem tells?_outcome (f : Fate) : (Status.ended f.outcome).tells? = some f.outcome := by
  cases f <;> rfl

/-- What has ended is what the pending tickets have heard. -/
theorem Roll.mem_ended {fates : List (Ticket × Fate)} (roll : Roll origins s.calls present)
    (hfates : ∀ f ∈ fates, f.1 ∈ origins) (nodup : (fates.map Prod.fst).Nodup)
    (hcalls : ∀ c : Nat, after.calls[c]? = s.calls[c]?.map fun call =>
      call.close ((fates.map fun p => (caller origins p.1, p.2)).lookup (.caller c)))
    (hkept : ∀ (id : Nat) call, before.calls[id]? = some call → s.calls[id]? = some call)
    (hover : ∀ (id : Nat) call, s.calls[id]? = some call → call.isPending = false →
      before.calls[id]? = some call) :
    (n, o) ∈ ended origins before after ↔
      ∃ f, (present n = true ∧ (n, f) ∈ fates) ∧ o = f.outcome := by
  rw [Session.mem_ended]
  constructor
  · rintro ⟨id, call', hid, hcall', _, hbefore, htells⟩
    rw [hcalls] at hcall'
    obtain ⟨call, hcall, rfl⟩ := Option.map_eq_some_iff.mp hcall'
    rw [lookup_caller roll.nodup hfates hid] at htells
    rcases roll.state id n call hid hcall with ⟨hpresent, _, hopen⟩ | ⟨_, hdone⟩
    · cases hf : fates.lookup n with
      | none =>
        rw [hf, Call.close, hopen] at htells
        cases htells
      | some f =>
        have hpending : call.isPending = true := by rw [Call.isPending, hopen]; rfl
        rw [hf, Call.close, if_pos hpending, tells?_outcome] at htells
        exact ⟨f, ⟨hpresent, (lookup_eq_some_iff_mem nodup).mp hf⟩, (Option.some.inj htells).symm⟩
    · have hover' := isPending_of_unlisted hdone
      have hsame : call.status.tells? = some o := by
        cases hf : fates.lookup n with
        | none => rwa [hf, Call.close] at htells
        | some f => rwa [hf, Call.close, if_neg (by simp [hover'])] at htells
      rw [Cluster.tells?_of_call (hover id call hcall hover'), hsame] at hbefore
      cases hbefore
  · rintro ⟨f, ⟨hpresent, hf⟩, rfl⟩
    obtain ⟨id, call, op, hid, hcall, htarget, hopen⟩ := roll.open_of_present hpresent
    have hpending : call.isPending = true := by rw [Call.isPending, hopen]; rfl
    refine ⟨id, call.close (some f), hid, ?_, ?_, ?_, ?_⟩
    · rw [hcalls, hcall, Option.map_some, lookup_caller roll.nodup hfates hid,
        (lookup_eq_some_iff_mem nodup).mpr hf]
    · rw [Call.close, if_pos hpending, Cluster.reported, htarget]
    · refine tells?_of_open fun old hold => ?_
      obtain rfl := Option.some.inj (hcall.symm.trans (hkept id old hold))
      exact hpending
    · rw [Call.close, if_pos hpending]
      exact tells?_outcome f

/-- Nothing is told that was not told before. -/
theorem notMem_ended (h : ∀ (id : Nat) call, after.calls[id]? = some call →
    call.status.tells? = some o → before.calls[id]? = some call) :
    (n, o) ∉ ended origins before after := by
  rw [Session.mem_ended]
  rintro ⟨id, call, _, hcall, _, hbefore, htells⟩
  rw [Cluster.tells?_of_call (h id call hcall htells), htells] at hbefore
  cases hbefore

end Session

end Custody
