import Custody.Proofs.Session.Account
import Custody.Proofs.Session.Roll
import Custody.Proofs.Store.Renaming
import Custody.Proofs.Order.Fares

/-!
# A store beside a desk

The actor that runs a store and the desk do the same for callers of the store. In the actor's case a
request is a message, its caller waits for a reply, and other callers hear of it in between; in the
end the store shows what the desk shows, and the calls have ended whose tickets the desk has
settled.
-/

namespace Custody

namespace Session

/-- The session after `n` steps is at rest, and desk `d` shows the same. -/
structure Beside (d : Desk) (n : Nat) (s : Session) : Prop where
  calm : s.cluster.Calm
  empty : s.cluster.keeper.inbox.entries = []
  roll : Roll s.origins s.cluster.calls d.isPresent
  made : ∀ t ∈ s.origins, t < n
  parked : ∀ k t, d.store.waiter k = some t → t ∈ s.origins
  shows : ∀ k, Store.Shows (caller s.origins) k d.store s.cluster.keeper.store

variable {d : Desk} {n : Nat} {s t : Session} {r : Report} {st : Step} {x : Ticket}

theorem beside_start (setup : Setup) : Beside {} 0 (start setup) where
  calm := Cluster.calm_start setup
  empty := rfl
  roll := roll_start.congr fun t => by simp [Desk.isPresent]
  made t ht := by cases ht
  parked k t ht := by simp [Store.waiter] at ht
  shows k := Store.shows_empty

/-- What is reported of a step, when `origins` are those of the calls after it. -/
theorem close_parts {acted after : Cluster} {found : Option Finding} {origins : List Nat}
    (h : s.close n st acted found after = (t, r)) (hst : st ≠ .status)
    (horigins : s.origins ++ List.replicate (acted.calls.length - s.origins.length) n = origins) :
    t = ⟨after, origins⟩ ∧ r =
      { ended := ended origins s.cluster after
        opened := opened origins after
        store := if after.keeper.handle then some after.sight else none
        finding := found } := by
  unfold close at h
  rw [horigins] at h
  obtain ⟨rfl, rfl⟩ := Prod.mk.inj h
  refine ⟨rfl, ?_⟩
  cases st with
  | status => exact (hst rfl).elim
  | _ => rfl

/-- Of the store and of the open calls a report shows what the desk shows. -/
theorem Beside.matches {st : Option Desk.Step} {after : Cluster} {origins : List Nat}
    (beside : Beside (d.next st) (n + 1) ⟨after, origins⟩)
    (hended : ∀ m o, (m, o) ∈ ended origins s.cluster after ↔
      ∃ f, (m, f) ∈ d.hears st ∧ o = f.outcome) :
    Matches d st
      { ended := ended origins s.cluster after
        opened := opened origins after
        store := if after.keeper.handle then some after.sight else none
        finding := none } where
  ended := hended
  opened m standing := beside.roll.mem_opened
  store := by
    rw [beside.calm.handle, if_pos rfl, Cluster.sight, beside.calm.running, if_pos rfl,
      Store.snapshot_of_shows beside.shows]
  finding := rfl

/-! ## A request -/

/-- The names of all but the new caller stay what they were. -/
theorem Beside.shows_push (beside : Beside d n s) (k : Key) :
    Store.Shows (caller (s.origins ++ [n])) k d.store s.cluster.keeper.store :=
  (beside.shows k).congr fun x hx => by
    rw [caller, caller, List.idxOf_append_of_mem (beside.parked k x hx)]

theorem Beside.new (beside : Beside d n s) : n ∉ s.origins := fun hn =>
  Nat.lt_irrefl n (beside.made n hn)

theorem Beside.made_push (beside : Beside d n s) : ∀ x ∈ s.origins ++ [n], x < n + 1 := by
  intro x hx
  rcases List.mem_append.mp hx with hx | hx
  · exact Nat.lt_succ_of_lt (beside.made x hx)
  · rw [List.mem_singleton.mp hx]
    exact Nat.lt_succ_self n

theorem Beside.caller_new (beside : Beside d n s) :
    caller (s.origins ++ [n]) n = .caller s.cluster.calls.length := by
  rw [caller, List.idxOf_append_of_notMem beside.new, List.idxOf_cons_self, Nat.add_zero,
    beside.roll.length]

theorem front_other {q : Request Ticket} (ht : q.who ≠ x) :
    (d.front q).isPresent x = d.isPresent x := by
  rw [Bool.eq_iff_iff, Desk.isPresent_front]
  exact or_iff_right ht

/-- The cluster when the request of step `n` has been sent. -/
def sent (s : Session) (q : Request Ticket) : Cluster :=
  (s.cluster.enter (.store q.op) q.key (.pending false .empty)).send
    (.request ⟨q.op, q.key, .caller s.cluster.calls.length⟩)

theorem Beside.roll_sent {q : Request Ticket} (beside : Beside d n s) (hq : q.who = n) :
    Roll (s.origins ++ [n]) (s.sent q).calls (d.front q).isPresent :=
  beside.roll.push beside.new (fun _ hx => front_other (hq ▸ Ne.symm hx))
    (Or.inl ⟨Desk.isPresent_front.mpr (Or.inl hq), ⟨q.op, rfl⟩, rfl⟩)

/-- Those who hear of a request have a call. -/
theorem Beside.ticket_of_fate {q : Request Ticket} (beside : Beside d n s) (hq : q.who = n) :
    ∀ f ∈ (d.store.handle (d.front q).isPresent q).2.fates q.who, f.1 ∈ s.origins ++ [n] := by
  rintro ⟨x, f⟩ hf
  rcases Store.concerned_of_fate hf with rfl | hwaits
  · exact List.mem_append_right _ (List.mem_singleton.mpr hq)
  · exact List.mem_append_left _ (beside.parked q.key x hwaits)

/-- What comes of a request: the store decides as the desk does, and whoever hears of it at the desk
has heard of it when the actors rest. -/
theorem Beside.run_sent {q : Request Ticket} {after : Cluster} {moves : List Move}
    {es : List Event} (beside : Beside d n s) (hq : q.who = n)
    (hrun : (s.sent q).run (moves.map .move) = some (after, es)) (hrest : after.atRest = true) :
    after.Calm ∧ after.keeper.inbox.entries = [] ∧
      (∀ k, Store.Shows (caller (s.origins ++ [n])) k (d.store.handle (d.front q).isPresent q).1
        after.keeper.store) ∧
      ∀ c : Nat, after.calls[c]? = (s.sent q).calls[c]?.map fun call => call.close
        ((((d.store.handle (d.front q).isPresent q).2.fates q.who).map fun p =>
          (caller (s.origins ++ [n]) p.1, p.2)).lookup (.caller c)) := by
  have roll := beside.roll_sent hq
  have hname : (⟨q.op, q.key, .caller s.cluster.calls.length⟩ : Request Requester) =
      q.map (caller (s.origins ++ [n])) := by
    rw [Request.map, hq, beside.caller_new]
  have calm : (s.sent q).Calm := beside.calm.congr rfl rfl rfl
  have hentries : (s.sent q).keeper.inbox.entries =
      [.request (q.map (caller (s.origins ++ [n])))] := by
    rw [← hname]
    exact congrArg (· ++ _) beside.empty
  have hpresent : ∀ k x, d.store.waiter k = some x →
      (s.sent q).isPresent (caller (s.origins ++ [n]) x) = (d.front q).isPresent x :=
    fun k x hx => roll.isPresent_caller (List.mem_append_left _ (beside.parked k x hx))
  obtain ⟨hcalm, hempty, hstore, hcalls⟩ :=
    calm.run_of_request hentries roll.noted (fun c call hcall => roll.call_cases hcall) hrun hrest
  have hverdict := (beside.shows_push q.key).verdict (hpresent q.key)
  refine ⟨hcalm, hempty, fun k => ?_, fun c => ?_⟩
  · rw [hstore]
    exact (beside.shows_push k).handle (beside.shows_push q.key) (hpresent q.key)
  · rw [hcalls, ← Verdict.fates_map, ← hverdict]
    rfl

/-- The origins of the calls when one more call was made. -/
theorem Beside.origins_push {calls : List Call} (beside : Beside d n s)
    (h : calls.length = s.cluster.calls.length + 1) :
    s.origins ++ List.replicate (calls.length - s.origins.length) n = s.origins ++ [n] := by
  rw [h, ← beside.roll.length, Nat.add_sub_cancel_left]
  rfl

theorem beside_request {op : Operation} {k : Key} (beside : Beside d n s)
    (h : Turn s n (.call (.store op) k) t r) :
    Beside (d.next (some (.submit ⟨op, k, n⟩ false))) (n + 1) t ∧
      Matches d (some (.submit ⟨op, k, n⟩ false)) r := by
  obtain ⟨acted, found, after, heffect, ⟨moves, es, hrun⟩, hrest, hclose⟩ := h
  cases effects_of_effect heffect with
  | call made =>
  obtain ⟨_, ⟨_, rfl⟩ | ⟨hstopped, _⟩⟩ := Cluster.call_store_cases made
  · let q : Request Ticket := ⟨op, k, n⟩
    change (s.sent q).run (moves.map .move) = some (after, es) at hrun
    have hlength : (s.sent q).calls.length = s.cluster.calls.length + 1 := List.length_append
    obtain ⟨rfl, rfl⟩ := close_parts hclose nofun (beside.origins_push hlength)
    obtain ⟨calm, hempty, shows, hcalls⟩ := beside.run_sent (q := q) rfl hrun hrest
    have roll := beside.roll_sent (q := q) rfl
    have hfates := beside.ticket_of_fate (q := q) rfl
    have hnodup := Store.nodup_fates (d.front q).isPresent (r := q)
      fun hwaits => beside.new (beside.parked k n hwaits)
    have beside' : Beside (d.next (some (.submit q false))) (n + 1) ⟨after, s.origins ++ [n]⟩ := by
      refine ⟨calm, hempty, roll.tell hfates hnodup hcalls fun x => Desk.isPresent_submit,
        beside.made_push, fun key x hx => ?_, shows⟩
      obtain ⟨hwaits, _⟩ | ⟨_, rfl, _⟩ := Store.waiter_cases hx
      · exact List.mem_append_left _ (beside.parked key x hwaits)
      · exact List.mem_append_right _ List.mem_cons_self
    refine ⟨beside', beside'.matches fun m o => ?_⟩
    rw [roll.mem_ended hfates hnodup hcalls]
    · simp only [Desk.mem_heard_submit]
    · intro id call hcall
      exact (List.getElem?_append_left (List.getElem?_eq_some_iff.mp hcall).1).trans hcall
    · intro id call hcall hover
      rcases entry_snoc hcall with hcall | ⟨_, rfl⟩
      · exact hcall
      · cases hover
  · rw [beside.calm.running] at hstopped
    cases hstopped

/-! ## Going away -/

/-- Giving up a call takes nothing back from an empty inbox. -/
theorem Beside.giveUp_parts (beside : Beside d n s) (id : Nat) :
    (s.cluster.giveUp id).keeper = s.cluster.keeper ∧
      (s.cluster.giveUp id).members = s.cluster.members := by
  obtain ⟨_, hgiveUp⟩ | ⟨_, hgiveUp⟩ := s.cluster.giveUp_cases id
  · rw [hgiveUp]
    exact ⟨rfl, rfl⟩
  rw [hgiveUp]
  obtain heq | ⟨call, hcall, hpending, ⟨i, a, manner, htarget, _⟩ | ⟨_, heq⟩⟩ :=
    s.cluster.cancel_target_cases id
  · rw [heq]
    exact ⟨rfl, rfl⟩
  · rcases beside.roll.call_cases hcall with hover | ⟨⟨op, hstore⟩, _⟩
    · rw [hpending] at hover
      cases hover
    · rw [htarget] at hstore
      cases hstore
  · rw [heq]
    refine ⟨?_, rfl⟩
    have hsame : (s.cluster.keeper.inbox.withdraw fun command =>
        command.sender == .caller id) = s.cluster.keeper.inbox :=
      Inbox.withdraw_eq_self fun x hx => by
        rw [Inbox.blocked, beside.empty, List.drop_nil] at hx
        cases hx
    rw [Cluster.keeper_onCall, Cluster.withdraw, hsame]

/-- A step that does nothing to the store and makes no call. -/
theorem Beside.left {acted : Cluster} {d' : Desk} (beside : Beside d n s)
    (hkeeper : acted.keeper = s.cluster.keeper) (hmembers : acted.members = s.cluster.members)
    (roll : Roll s.origins acted.calls d'.isPresent) (hstore : d'.store = d.store) :
    Beside d' (n + 1) ⟨acted, s.origins⟩ where
  calm := beside.calm.congr (by rw [hkeeper]) (by rw [hkeeper]) hmembers
  empty := by rw [hkeeper, beside.empty]
  roll := roll
  made x hx := Nat.lt_succ_of_lt (beside.made x hx)
  parked := hstore ▸ beside.parked
  shows := by
    rw [hstore, hkeeper]
    exact beside.shows

/-- Whoever goes away leaves the desk, and its call is over. -/
theorem Beside.cancel {acted : Cluster} {m : Nat} (beside : Beside d n s)
    (hacted : (∃ c, s.callOf m = some c ∧ acted = s.cluster.giveUp c) ∨
      (s.callOf m = none ∧ acted = s.cluster)) :
    Beside (d.next (some (.leave m))) (n + 1) ⟨acted, s.origins⟩ ∧
      ∀ (id : Nat) call o, acted.calls[id]? = some call → call.status.tells? = some o →
        s.cluster.calls[id]? = some call := by
  obtain ⟨c, hc, rfl⟩ | ⟨hnone, rfl⟩ := hacted
  · have roll := (beside.roll.giveUp (origin_of_callOf hc)).congr fun x =>
      Desk.isPresent_leave d m x
    obtain ⟨hkeeper, hmembers⟩ := beside.giveUp_parts c
    refine ⟨beside.left hkeeper hmembers roll rfl, fun id call o hcall htells => ?_⟩
    rw [Cluster.calls_giveUp] at hcall
    split at hcall
    · obtain ⟨old, hold, rfl⟩ := Option.map_eq_some_iff.mp hcall
      split at htells
      · cases htells
      · rename_i hover
        rw [if_neg hover, hold]
    · exact hcall
  · have habsent : d.isPresent m = false := by
      by_contra hpresent
      obtain ⟨id, hid⟩ := List.mem_iff_getElem?.mp
        (beside.roll.made m (by simpa using hpresent))
      exact callOf_ne_none hid hnone
    refine ⟨beside.left rfl rfl (beside.roll.congr fun x => ?_) rfl, fun _ _ _ hcall _ => hcall⟩
    change (d.leave m).isPresent x = _
    rw [Desk.isPresent_leave]
    by_cases hx : m = x
    · rw [← hx, habsent, Bool.false_and]
    · rw [beq_false_of_ne hx, Bool.not_false, Bool.and_true]

theorem beside_cancel {m : Nat} (beside : Beside d n s) (h : Turn s n (.cancel m) t r) :
    Beside (d.next (some (.leave m))) (n + 1) t ∧ Matches d (some (.leave m)) r := by
  obtain ⟨acted, found, after, heffect, ⟨moves, es, hrun⟩, _, hclose⟩ := h
  obtain ⟨hacted, rfl⟩ : ((∃ c, s.callOf m = some c ∧ acted = s.cluster.giveUp c) ∨
      (s.callOf m = none ∧ acted = s.cluster)) ∧ found = none := by
    cases effects_of_effect heffect with
    | @cancel _ c named => exact ⟨Or.inl ⟨c, named, rfl⟩, rfl⟩
    | cancelNothing unnamed => exact ⟨Or.inr ⟨unnamed, rfl⟩, rfl⟩
  obtain ⟨beside', hkept⟩ := beside.cancel hacted
  have hstill : after = acted := beside'.calm.run_of_still beside'.empty beside'.roll.noted hrun
  have horigins : s.origins ++ List.replicate (acted.calls.length - s.origins.length) n =
      s.origins := by
    rw [← beside'.roll.length, Nat.sub_self]
    exact List.append_nil _
  obtain ⟨rfl, rfl⟩ := close_parts hclose nofun horigins
  subst hstill
  refine ⟨beside', beside'.matches fun x o => iff_of_false ?_ ?_⟩
  · exact notMem_ended fun id call hcall htells => hkept id call o hcall htells
  · rintro ⟨f, hf, _⟩
    cases hf

/-! ## A dropped snapshot request -/

/-- What is left of the request is a message for nobody, or not even that. -/
theorem dropped_parts {c asked : Cluster} (h : c.call .snapshot "" = some asked)
    (hrunning : c.keeper.running = true) :
    (asked.cancel c.calls.length).keeper.store = c.keeper.store ∧
      (asked.cancel c.calls.length).keeper.running = c.keeper.running ∧
      (asked.cancel c.calls.length).keeper.handle = c.keeper.handle ∧
      (asked.cancel c.calls.length).members = c.members ∧
      (asked.cancel c.calls.length).calls = c.calls ++ [⟨.snapshot, "", .cancelled⟩] ∧
      (asked.cancel c.calls.length).keeper.inbox.entries.Sublist
        (c.keeper.inbox.entries ++ [.snapshot c.calls.length]) := by
  obtain ⟨_, ⟨_, rfl⟩ | ⟨hstopped, _⟩⟩ := Cluster.call_snapshot_cases h
  · have hcall := c.enter_new .snapshot "" (.pending false .empty)
    have hcancel : ((c.enter .snapshot "" (.pending false .empty)).send
        (.snapshot c.calls.length)).cancel c.calls.length =
        (((c.enter .snapshot "" (.pending false .empty)).send (.snapshot c.calls.length)).withdraw
          (.caller c.calls.length)).onCall c.calls.length ({ · with status := .cancelled }) := by
      rw [Cluster.cancel, Cluster.calls_send, hcall]
      rfl
    rw [hcancel]
    refine ⟨rfl, rfl, rfl, rfl, ?_, (Cluster.entries_withdraw _ _).1⟩
    change List.modify (c.calls ++ [_]) c.calls.length _ = _
    simp [List.modify_eq_take_drop]
  · rw [hrunning] at hstopped
    cases hstopped

/-- A dropped snapshot request is answered to nobody, if it is answered at all. -/
theorem beside_dropSnapshot (beside : Beside d n s) (h : Turn s n .dropSnapshot t r) :
    Beside d (n + 1) t ∧ Matches d none r := by
  obtain ⟨acted, found, after, heffect, ⟨moves, es, hrun⟩, hrest, hclose⟩ := h
  cases effects_of_effect heffect with
  | @dropSnapshot asked hasked =>
  obtain ⟨hstore, hrunning, hhandle, hmembers, hcalls, hentries⟩ :=
    dropped_parts hasked beside.calm.running
  have habsent : d.isPresent n = false := by
    by_contra hpresent
    exact beside.new (beside.roll.made n (by simpa using hpresent))
  have roll : Roll (s.origins ++ [n]) (asked.cancel s.cluster.calls.length).calls d.isPresent := by
    rw [hcalls]
    exact beside.roll.push beside.new (fun _ _ => rfl) (Or.inr ⟨habsent, rfl⟩)
  have calm := beside.calm.congr hrunning hhandle hmembers
  obtain ⟨calm', hempty', hstore', hcalls'⟩ : after.Calm ∧ after.keeper.inbox.entries = [] ∧
      after.keeper.store = (asked.cancel s.cluster.calls.length).keeper.store ∧
      after.calls = (asked.cancel s.cluster.calls.length).calls := by
    rw [beside.empty, List.nil_append, List.sublist_singleton] at hentries
    rcases hentries with hentries | hentries
    · obtain rfl := calm.run_of_still hentries roll.noted hrun
      exact ⟨calm, hentries, rfl, rfl⟩
    · refine calm.run_of_snapshot hentries roll.noted (fun call hcall => ?_) hrun hrest
      rw [hcalls, List.getElem?_concat_length] at hcall
      obtain rfl := Option.some.inj hcall
      rfl
  have hlength : (asked.cancel s.cluster.calls.length).calls.length =
      s.cluster.calls.length + 1 := by
    rw [hcalls]
    exact List.length_append
  obtain ⟨rfl, rfl⟩ := close_parts hclose nofun (beside.origins_push hlength)
  have beside' : Beside (d.next none) (n + 1) ⟨after, s.origins ++ [n]⟩ := by
    refine ⟨calm', hempty', hcalls' ▸ roll, beside.made_push,
      fun key x hx => List.mem_append_left _ (beside.parked key x hx), fun key => ?_⟩
    rw [hstore', hstore]
    exact beside.shows_push key
  refine ⟨beside', beside'.matches fun m o => iff_of_false ?_ ?_⟩
  · refine notMem_ended fun id call hcall htells => ?_
    rw [hcalls', hcalls] at hcall
    rcases entry_snoc hcall with hcall | ⟨_, rfl⟩
    · exact hcall
    · cases htells
  · rintro ⟨f, hf, _⟩
    cases hf

end Session

end Custody
