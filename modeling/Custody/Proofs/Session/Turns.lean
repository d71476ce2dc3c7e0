import Custody.Cluster.Session
import Custody.Proofs.Calls.Booking
import Custody.Proofs.Calls.Onward
import Custody.Proofs.Cluster.Settle

/-!
# What a step does to a call

A step looks at one call, waits for it, gives it up, makes a new one, or leaves all calls to
themselves; then the actors move until they are at rest. What a step reports of a call is what it
adds to what the call's status tells.
-/

namespace Custody

/-- What has been told to whoever made a call. -/
def Status.told : Status → List Outcome
  | taken a => [.answered a]
  | status => status.tells?.toList

/-- A call that is reported to be open: it is pending, or void. -/
def Status.isListed : Status → Bool
  | ended .void => true
  | status => status.isPending

theorem Status.isListed_eq {status : Status} (h : status ≠ .ended .void) :
    status.isListed = status.isPending := by
  cases status with
  | ended o =>
    cases o with
    | void => exact absurd rfl h
    | _ => rfl
  | _ => rfl

/-- The status of a call that was just made: nothing has been heard of it, or it was refused. -/
def Status.Fresh : Status → Prop
  | pending _ slot => slot = .empty
  | ended o => o ≠ .void
  | _ => False

namespace Cluster

variable {s t : Cluster} {id c : Nat}

/-- What a look at a held call does, and what it finds. -/
theorem take_peek_cases (h : s.take id = some t) : ∃ call, s.calls[id]? = some call ∧
    ((∃ a, call.status = .pending true (.full a) ∧ s.peek id = some a ∧
        t = s.onCall id fun c => { c with status := .taken a }) ∨
      (call.status = .pending true .dropped ∧ s.peek id = none ∧
        t = s.onCall id fun c => { c with status := .pending true .spent }) ∨
      (s.peek id = none ∧ t = s)) := by
  obtain ⟨call, hcall, h⟩ := Option.bind_eq_some_iff.mp h
  refine ⟨call, hcall, ?_⟩
  split at h
  · rename_i a hstatus
    refine Or.inl ⟨a, hstatus, ?_, (Option.some.inj h).symm⟩
    simp [peek, hcall, hstatus]
  · rename_i hstatus
    refine Or.inr (Or.inl ⟨hstatus, ?_, (Option.some.inj h).symm⟩)
    simp [peek, hcall, hstatus]
  · rename_i slot hfull _ hstatus
    refine Or.inr (Or.inr ⟨?_, (Option.some.inj h).symm⟩)
    cases slot with
    | full a => exact absurd rfl (hfull a)
    | _ => simp [peek, hcall, hstatus]
  · cases h

/-- Giving up a call ends it if it is still pending, and concerns no other. -/
theorem calls_cancel (s : Cluster) (id c : Nat) : (s.cancel id).calls[c]? =
    if id = c then s.calls[c]?.map fun call =>
      if call.isPending then { call with status := .cancelled } else call
    else s.calls[c]? := by
  by_cases hc : id = c
  · subst hc
    rw [if_pos rfl, cancel]
    cases hcall : s.calls[id]? with
    | none => exact hcall
    | some call =>
      dsimp only
      split
      · rename_i hpending
        rw [calls_onCall, if_pos rfl]
        split <;> simp [withdrawJob, withdraw, hcall, hpending]
      · rename_i hdone
        simp [hcall, hdone]
  · rw [if_neg hc, cancel]
    split
    · rfl
    · split
      · rw [calls_onCall, if_neg hc]
        split <;> rfl
      · rfl

theorem giveUp_cases (s : Cluster) (id : Nat) :
    (s.ended? id = some .void ∧
        s.giveUp id = s.onCall id fun c => { c with status := .cancelled }) ∨
      (s.ended? id ≠ some .void ∧ s.giveUp id = s.cancel id) := by
  rw [giveUp]
  split
  · rename_i hvoid
    exact Or.inl ⟨hvoid, rfl⟩
  · rename_i hvoid
    exact Or.inr ⟨hvoid, rfl⟩

theorem ended?_eq_some {o : Outcome} : s.ended? id = some o ↔
    ∃ call, s.calls[id]? = some call ∧ call.status = .ended o := by
  rw [ended?, Option.bind_eq_bind, Option.bind_eq_some_iff]
  refine exists_congr fun call => and_congr_right fun _ => ?_
  cases call.status <;> simp

theorem tells?_of_call {call : Call} (hcall : s.calls[id]? = some call) :
    s.tells? id = call.status.tells? := by
  rw [tells?, hcall]
  rfl

/-- It ends the call if the call is listed, and concerns no other. -/
theorem calls_giveUp (s : Cluster) (id c : Nat) : (s.giveUp id).calls[c]? =
    if id = c then s.calls[c]?.map fun call =>
      if call.status.isListed then { call with status := .cancelled } else call
    else s.calls[c]? := by
  obtain ⟨hvoid, heq⟩ | ⟨hvoid, heq⟩ := s.giveUp_cases id
  · rw [heq, calls_onCall]
    split
    · rename_i hid
      subst hid
      obtain ⟨call, hcall, hstatus⟩ := ended?_eq_some.mp hvoid
      simp [hcall, hstatus, Status.isListed]
    · rfl
  · rw [heq, calls_cancel]
    split
    · rename_i hid
      subst hid
      cases hcall : s.calls[id]? with
      | none => rfl
      | some call =>
        have hstands : call.status ≠ .ended .void := fun hstatus =>
          hvoid (ended?_eq_some.mpr ⟨call, hcall, hstatus⟩)
        have hlisted : call.status.isListed = call.isPending := Status.isListed_eq hstands
        simp [hlisted]
    · rfl

theorem length_calls_cancel (s : Cluster) (id : Nat) :
    (s.cancel id).calls.length = s.calls.length := by
  obtain heq | ⟨f, ⟨j, heq⟩ | heq⟩ := cancel_cases s id
  · rw [heq]
  · rw [heq]
    exact length_calls_onCall _ _ _
  · rw [heq]
    exact length_calls_onCall _ _ _

theorem length_calls_giveUp (s : Cluster) (id : Nat) :
    (s.giveUp id).calls.length = s.calls.length := by
  obtain ⟨_, heq⟩ | ⟨_, heq⟩ := s.giveUp_cases id
  · rw [heq]
    exact length_calls_onCall _ _ _
  · rw [heq]
    exact length_calls_cancel s id

end Cluster

namespace Session

/-- What belongs to `n` in a list. -/
def named {α : Type} (n : Nat) (l : List (Nat × α)) : List α :=
  l.filterMap fun x => if x.1 = n then some x.2 else none

/-- What a look at call `n` has found, if there was one and it found a reply. -/
def Step.finds (st : Step) (finding : Option Finding) (n : Nat) : List Outcome :=
  match st, finding with
  | .take m, some (.reply (some a)) => if m = n then [.answered a] else []
  | _, _ => []

/-- What a report on step `st` tells of call `n`. -/
def Report.told (st : Step) (r : Report) (n : Nat) : List Outcome :=
  named n r.ended ++ st.finds r.finding n

/-- What becomes of call `n` in step `st` before the actors move. -/
inductive Handled (st : Step) (finding : Option Finding) (n : Nat) : Status → Status → Prop
  | left {a b : Status} (follows : a.Follows b) (nothing : st.finds finding n = [])
      (kept : st = .cancel n → a.isListed = false) : Handled st finding n a b
  | taken (x : Answer) (step : st = .take n) (finds : st.finds finding n = [.answered x]) :
      Handled st finding n (.pending true (.full x)) (.taken x)
  | noticed (step : st = .take n) (nothing : st.finds finding n = []) :
      Handled st finding n (.pending true .dropped) (.pending true .spent)
  | awaited (slot : Slot Answer) (step : st = .wait n) (nothing : st.finds finding n = []) :
      Handled st finding n (.pending true slot) (.pending false slot)
  | cancelled (a : Status) (step : st = .cancel n) (listed : a.isListed = true)
      (nothing : st.finds finding n = []) : Handled st finding n a .cancelled

/-- Call `id` of `s`, which is `call`, was made by step `n` and is treated so in step `st`. -/
def Treated (st : Step) (finding : Option Finding) (n : Nat) (call : Call) (acted : Cluster)
    (id : Nat) : Prop :=
  ∃ call', acted.calls[id]? = some call' ∧ call'.target = call.target ∧
    Handled st finding n call.status call'.status

variable {s t : Session} {st : Step} {finding : Option Finding} {acted : Cluster} {id m n : Nat}
  {call : Call} {r : Report}

/-! ## Calls by the steps that made them -/

theorem origin_of_callOf (h : s.callOf m = some id) : s.origins[id]? = some m := by
  obtain ⟨hlt, heq, _⟩ := List.idxOf?_eq_some_iff.mp h
  rw [List.getElem?_eq_getElem hlt, heq]

theorem callOf_ne_none (h : s.origins[id]? = some m) : s.callOf m ≠ none := by
  rw [callOf, ne_eq, List.idxOf?_eq_none_iff]
  simp [List.mem_of_getElem? h]

theorem id_unique (nodup : s.origins.Nodup) {id' : Nat} (h : s.origins[id]? = some m)
    (h' : s.origins[id']? = some m) : id = id' := by
  obtain ⟨hlt, heq⟩ := List.getElem?_eq_some_iff.mp h
  obtain ⟨hlt', heq'⟩ := List.getElem?_eq_some_iff.mp h'
  exact (List.Nodup.getElem_inj_iff nodup).mp (heq.trans heq'.symm)

theorem callOf_of_origin (nodup : s.origins.Nodup) (hid : s.origins[id]? = some n) :
    s.callOf n = some id := by
  obtain ⟨id', hid'⟩ := Option.ne_none_iff_exists'.mp (callOf_ne_none hid)
  rw [hid', id_unique nodup (origin_of_callOf hid') hid]

theorem id_ne {id' : Nat} (h : s.origins[id]? = some m) (h' : s.origins[id']? = some n)
    (hmn : m ≠ n) : id ≠ id' := by
  rintro rfl
  exact hmn (Option.some.inj (h.symm.trans h'))

/-! ## What a step can do -/

/-- What a step does to the cluster before the actors move, and what it finds. -/
inductive Effects (s : Session) : Step → Cluster → Option Finding → Prop
  | call {target : Target} {k : Key} {t : Cluster} (made : s.cluster.call target k = some t) :
      Effects s (.call target k) t none
  | take {m c : Nat} {t : Cluster} (named : s.callOf m = some c)
      (looked : s.cluster.take c = some t) :
      Effects s (.take m) t (some (.reply (s.cluster.peek c)))
  | wait {m c : Nat} {t : Cluster} (named : s.callOf m = some c)
      (waited : s.cluster.wait c = some t) : Effects s (.wait m) t none
  | cancel {m c : Nat} (named : s.callOf m = some c) :
      Effects s (.cancel m) (s.cluster.giveUp c) none
  | cancelNothing {m : Nat} (unnamed : s.callOf m = none) : Effects s (.cancel m) s.cluster none
  | closeClient {i : Nat} {t : Cluster} (closed : s.cluster.closeClient i = some t) :
      Effects s (.closeClient i) t none
  | closeStore : Effects s .closeStore s.cluster.closeStore none
  | killClient {i : Nat} {t : Cluster} (killed : s.cluster.killClient i = some t) :
      Effects s (.killClient i) t none
  | killStore : Effects s .killStore s.cluster.killStore none
  | waitParked (k : Key) (found : Option Finding) : Effects s (.waitParked k) s.cluster found
  | dropSnapshot {t : Cluster} (asked : s.cluster.call .snapshot "" = some t) :
      Effects s .dropSnapshot (t.cancel s.cluster.calls.length) none
  | name (i : Nat) (found : Option Finding) : Effects s (.name i) s.cluster found
  | status : Effects s .status s.cluster none

theorem effects_of_effect (h : s.effect st = some (acted, finding)) :
    Effects s st acted finding := by
  cases st with
  | call target k =>
    obtain ⟨u, hu, h⟩ := Option.bind_eq_some_iff.mp h
    obtain ⟨rfl, rfl⟩ := Prod.mk.inj (Option.some.inj h)
    exact .call hu
  | take m =>
    obtain ⟨c, hc, h⟩ := Option.bind_eq_some_iff.mp h
    obtain ⟨u, hu, h⟩ := Option.bind_eq_some_iff.mp h
    obtain ⟨rfl, rfl⟩ := Prod.mk.inj (Option.some.inj h)
    exact .take hc hu
  | wait m =>
    obtain ⟨c, hc, h⟩ := Option.bind_eq_some_iff.mp h
    obtain ⟨u, hu, h⟩ := Option.bind_eq_some_iff.mp h
    obtain ⟨rfl, rfl⟩ := Prod.mk.inj (Option.some.inj h)
    exact .wait hc hu
  | cancel m =>
    simp only [effect] at h
    split at h
    · rename_i c hc
      obtain ⟨rfl, rfl⟩ := Prod.mk.inj (Option.some.inj h)
      exact .cancel hc
    · rename_i hnone
      obtain ⟨rfl, rfl⟩ := Prod.mk.inj (Option.some.inj h)
      exact .cancelNothing hnone
  | closeClient i =>
    obtain ⟨u, hu, h⟩ := Option.bind_eq_some_iff.mp h
    obtain ⟨rfl, rfl⟩ := Prod.mk.inj (Option.some.inj h)
    exact .closeClient hu
  | closeStore =>
    obtain ⟨rfl, rfl⟩ := Prod.mk.inj (Option.some.inj h)
    exact .closeStore
  | killClient i =>
    obtain ⟨u, hu, h⟩ := Option.bind_eq_some_iff.mp h
    obtain ⟨rfl, rfl⟩ := Prod.mk.inj (Option.some.inj h)
    exact .killClient hu
  | killStore =>
    obtain ⟨rfl, rfl⟩ := Prod.mk.inj (Option.some.inj h)
    exact .killStore
  | waitParked k =>
    simp only [effect] at h
    split at h
    · obtain ⟨result, _, h⟩ := Option.bind_eq_some_iff.mp h
      obtain ⟨rfl, rfl⟩ := Prod.mk.inj (Option.some.inj h)
      exact .waitParked k _
    · cases h
  | dropSnapshot =>
    obtain ⟨u, hu, h⟩ := Option.bind_eq_some_iff.mp h
    obtain ⟨rfl, rfl⟩ := Prod.mk.inj (Option.some.inj h)
    exact .dropSnapshot hu
  | name i =>
    obtain ⟨m, _, h⟩ := Option.bind_eq_some_iff.mp h
    split at h
    · obtain ⟨rfl, rfl⟩ := Prod.mk.inj (Option.some.inj h)
      exact .name i _
    · cases h
  | status =>
    obtain ⟨rfl, rfl⟩ := Prod.mk.inj (Option.some.inj h)
    exact .status

/-- Unless a call is void, a step does to the cluster only what acts do. -/
theorem reaches_of_effect (h : s.effect st = some (acted, finding))
    (hvoid : ∀ c, s.cluster.ended? c ≠ some .void) : s.cluster.Reaches acted := by
  cases effects_of_effect h with
  | @call target k _ made => exact Cluster.reaches_perform (a := .call target k) made
  | @take m c _ _ looked => exact Cluster.reaches_perform (a := .take c) looked
  | @wait m c _ _ waited => exact Cluster.reaches_perform (a := .wait c) waited
  | @cancel m c =>
    rw [Cluster.giveUp, if_neg (hvoid c)]
    exact Cluster.reaches_perform (a := .cancel c) rfl
  | @closeClient i _ closed => exact Cluster.reaches_perform (a := .closeClient i) closed
  | closeStore => exact Cluster.reaches_perform (a := .closeStore) rfl
  | @killClient i _ killed => exact Cluster.reaches_perform (a := .killClient i) killed
  | killStore => exact Cluster.reaches_perform (a := .killStore) rfl
  | dropSnapshot asked =>
    have hasked := Cluster.reaches_perform (a := .call .snapshot "") asked
    exact hasked.trans (Cluster.reaches_perform (a := .cancel s.cluster.calls.length) rfl)
  | cancelNothing => exact .refl _
  | waitParked => exact .refl _
  | name => exact .refl _
  | status => exact .refl _

/-! ## Before the actors move -/

/-- A step that finds nothing and gives nothing up leaves a call to itself. -/
theorem treated_of_onward (h : s.cluster.Onward acted) (hcall : s.cluster.calls[id]? = some call)
    (nothing : st.finds finding n = []) (kept : st ≠ .cancel n) :
    Treated st finding n call acted id := by
  obtain ⟨call', hcall', hbecomes⟩ := h.after hcall
  exact ⟨call', hcall', hbecomes.target, .left hbecomes.follows nothing fun h => absurd h kept⟩

theorem treated_of_same (hcall : acted.calls[id]? = some call)
    (nothing : st.finds finding n = []) (kept : st ≠ .cancel n) :
    Treated st finding n call acted id :=
  ⟨call, hcall, rfl, .left (.same _) nothing fun h => absurd h kept⟩

theorem treated_take {c : Nat} (nodup : s.origins.Nodup) (hid : s.origins[id]? = some n)
    (hcall : s.cluster.calls[id]? = some call) (hc : s.callOf m = some c)
    (h : s.cluster.take c = some acted) :
    Treated (.take m) (some (.reply (s.cluster.peek c))) n call acted id := by
  have hm := origin_of_callOf hc
  by_cases hmn : m = n
  · subst hmn
    obtain rfl := id_unique nodup hm hid
    obtain ⟨call', hcall', htake⟩ := Cluster.take_peek_cases h
    obtain rfl := Option.some.inj (hcall.symm.trans hcall')
    obtain ⟨a, hstatus, hpeek, rfl⟩ | ⟨hstatus, hpeek, rfl⟩ | ⟨hpeek, rfl⟩ := htake
    · refine ⟨{ call with status := .taken a }, ?_, rfl, ?_⟩
      · rw [Cluster.calls_onCall, if_pos rfl, hcall]
        rfl
      · rw [hstatus, hpeek]
        exact .taken a rfl (if_pos rfl)
    · refine ⟨{ call with status := .pending true .spent }, ?_, rfl, ?_⟩
      · rw [Cluster.calls_onCall, if_pos rfl, hcall]
        rfl
      · rw [hstatus, hpeek]
        exact .noticed rfl rfl
    · rw [hpeek]
      exact treated_of_same hcall rfl nofun
  · have hne := id_ne hm hid hmn
    have hsame : acted.calls[id]? = some call := by
      obtain ⟨f, rfl⟩ := Cluster.take_cases h
      rw [Cluster.calls_onCall, if_neg hne, hcall]
    refine treated_of_same hsame ?_ nofun
    cases s.cluster.peek c with
    | none => rfl
    | some a => exact if_neg hmn

theorem treated_wait {c : Nat} (nodup : s.origins.Nodup) (hid : s.origins[id]? = some n)
    (hcall : s.cluster.calls[id]? = some call) (hc : s.callOf m = some c)
    (h : s.cluster.wait c = some acted) : Treated (.wait m) none n call acted id := by
  have hm := origin_of_callOf hc
  obtain ⟨call', slot, hcall', hstatus, rfl⟩ := Cluster.wait_held_cases h
  by_cases hmn : m = n
  · subst hmn
    obtain rfl := id_unique nodup hm hid
    obtain rfl := Option.some.inj (hcall.symm.trans hcall')
    refine ⟨{ call with status := .pending false slot }, ?_, rfl, ?_⟩
    · rw [Cluster.calls_onCall, if_pos rfl, hcall]
      rfl
    · rw [hstatus]
      exact .awaited slot rfl rfl
  · have hne := id_ne hm hid hmn
    refine treated_of_same ?_ rfl nofun
    rw [Cluster.calls_onCall, if_neg hne, hcall]

theorem treated_cancel {c : Nat} (nodup : s.origins.Nodup) (hid : s.origins[id]? = some n)
    (hcall : s.cluster.calls[id]? = some call) (hc : s.callOf m = some c) :
    Treated (.cancel m) none n call (s.cluster.giveUp c) id := by
  have hm := origin_of_callOf hc
  by_cases hmn : m = n
  · subst hmn
    obtain rfl := id_unique nodup hm hid
    have hafter := s.cluster.calls_giveUp c c
    rw [if_pos rfl, hcall, Option.map_some] at hafter
    refine ⟨_, hafter, ?_⟩
    split
    · rename_i hlisted
      exact ⟨rfl, .cancelled _ rfl hlisted rfl⟩
    · rename_i hdone
      exact ⟨rfl, .left (.same _) rfl fun _ => by simpa using hdone⟩
  · have hne := id_ne hm hid hmn
    refine treated_of_same ?_ rfl fun h => hmn (Step.cancel.inj h)
    rw [Cluster.calls_giveUp, if_neg hne, hcall]

theorem calls_of_call {target : Target} {k : Key} {s t : Cluster} (h : s.call target k = some t) :
    t.calls = (s.enter target k (.pending target.isHeld .empty)).calls ∨
      ∃ f, t.calls = (s.enter target k (.ended (.failed f))).calls := by
  cases target with
  | client i act manner =>
    obtain ⟨m, _, _, ⟨_, rfl⟩ | ⟨_, rfl⟩⟩ := Cluster.call_client_cases h
    · exact Or.inl rfl
    · exact Or.inr ⟨_, rfl⟩
  | store op =>
    obtain ⟨_, ⟨_, rfl⟩ | ⟨_, rfl⟩⟩ := Cluster.call_store_cases h
    · exact Or.inl rfl
    · exact Or.inr ⟨_, rfl⟩
  | snapshot =>
    obtain ⟨_, ⟨_, rfl⟩ | ⟨_, rfl⟩⟩ := Cluster.call_snapshot_cases h
    · exact Or.inl rfl
    · exact Or.inr ⟨_, rfl⟩

/-- A step that makes a call: one that is reported, or one for a snapshot that nobody waits for. -/
structure Makes (st : Step) (s acted : Cluster) : Prop where
  length : acted.calls.length = s.calls.length + 1
  old : ∀ id < s.calls.length, acted.calls[id]? = s.calls[id]?
  made : ∃ call, acted.calls[s.calls.length]? = some call ∧
    ((∃ k, st = .call call.target k ∧ call.status.Fresh) ∨
      (st = .dropSnapshot ∧ call.target = .snapshot ∧
        (call.status.Fresh ∨ call.status = .cancelled)))

theorem makes_of_call {target : Target} {k : Key} {s t : Cluster} (h : s.call target k = some t) :
    Makes (.call target k) s t := by
  have hcalls : ∃ status, t.calls = (s.enter target k status).calls ∧ status.Fresh := by
    rcases calls_of_call h with hcalls | ⟨f, hcalls⟩
    · exact ⟨_, hcalls, rfl⟩
    · exact ⟨_, hcalls, nofun⟩
  obtain ⟨status, hcalls, hfresh⟩ := hcalls
  refine ⟨?_, ?_, ?_⟩
  · rw [hcalls, Cluster.enter, List.length_append, List.length_singleton]
  · intro id hid
    rw [hcalls, Cluster.enter, List.getElem?_append_left hid]
  · rw [hcalls]
    exact ⟨_, s.enter_new target k status, Or.inl ⟨k, rfl, hfresh⟩⟩

theorem makes_of_dropSnapshot {s asked : Cluster} (h : s.call .snapshot "" = some asked) :
    Makes .dropSnapshot s (asked.cancel s.calls.length) := by
  obtain ⟨hlength, hold, call, hcall, hmade⟩ := makes_of_call h
  obtain ⟨hsnapshot, hfresh⟩ : call.target = .snapshot ∧ call.status.Fresh := by
    obtain ⟨_, hstep, hfresh⟩ | ⟨hstep, _⟩ := hmade
    · exact ⟨(Step.call.inj hstep).1.symm, hfresh⟩
    · cases hstep
  have hlast := asked.calls_cancel s.calls.length s.calls.length
  rw [if_pos rfl, hcall, Option.map_some] at hlast
  refine ⟨?_, ?_, _, hlast, Or.inr ⟨rfl, ?_, ?_⟩⟩
  · rw [Cluster.length_calls_cancel, hlength]
  · intro id hid
    rw [Cluster.calls_cancel, if_neg (Nat.ne_of_gt hid), hold id hid]
  · split
    · exact hsnapshot
    · exact hsnapshot
  · split
    · exact Or.inr rfl
    · exact Or.inl hfresh

theorem finds_of_other (h : ∀ m, st ≠ .take m) : st.finds finding n = [] := by
  unfold Step.finds
  split
  · exact absurd rfl (h _)
  · rfl

/-- What a step does before the actors move: it makes a call, or it leaves the others to themselves
but for the one that it names. -/
theorem effect_cases (nodup : s.origins.Nodup) (h : s.effect st = some (acted, finding)) :
    Makes st s.cluster acted ∨
      ((∀ target k, st ≠ .call target k) ∧ acted.calls.length = s.cluster.calls.length ∧
        ∀ id n call, s.origins[id]? = some n → s.cluster.calls[id]? = some call →
          Treated st finding n call acted id) := by
  have honward : s.cluster.Onward acted → (∀ m, st ≠ .take m) → (∀ m, st ≠ .cancel m) →
      acted.calls.length = s.cluster.calls.length ∧
        ∀ id n call, s.origins[id]? = some n → s.cluster.calls[id]? = some call →
          Treated st finding n call acted id := by
    intro honward htake hcancel
    refine ⟨(List.Forall₂.length_eq honward).symm, fun id n call _ hcall => ?_⟩
    exact treated_of_onward honward hcall (finds_of_other htake) (hcancel n)
  cases effects_of_effect h with
  | call made => exact Or.inl (makes_of_call made)
  | dropSnapshot asked => exact Or.inl (makes_of_dropSnapshot asked)
  | take named looked =>
    refine Or.inr ⟨nofun, ?_, fun id n call hid hcall => treated_take nodup hid hcall named looked⟩
    obtain ⟨f, rfl⟩ := Cluster.take_cases looked
    exact Cluster.length_calls_onCall _ _ _
  | wait named waited =>
    refine Or.inr ⟨nofun, ?_, fun id n call hid hcall => treated_wait nodup hid hcall named waited⟩
    obtain ⟨f, rfl⟩ := Cluster.wait_cases waited
    exact Cluster.length_calls_onCall _ _ _
  | cancel named =>
    exact Or.inr ⟨nofun, Cluster.length_calls_giveUp _ _,
      fun id n call hid hcall => treated_cancel nodup hid hcall named⟩
  | cancelNothing unnamed =>
    refine Or.inr ⟨nofun, rfl, fun id n call hid hcall => treated_of_same hcall rfl ?_⟩
    intro hstep
    obtain rfl := Step.cancel.inj hstep
    exact callOf_ne_none hid unnamed
  | closeClient closed =>
    obtain rfl := Cluster.closeClient_cases closed
    exact Or.inr ⟨nofun, honward (Cluster.onward_of_calls rfl) nofun nofun⟩
  | closeStore => exact Or.inr ⟨nofun, honward (Cluster.onward_of_calls rfl) nofun nofun⟩
  | killClient killed =>
    exact Or.inr ⟨nofun, honward (Cluster.onward_killClient killed) nofun nofun⟩
  | killStore => exact Or.inr ⟨nofun, honward (Cluster.onward_killStore _) nofun nofun⟩
  | waitParked => exact Or.inr ⟨nofun, honward (Cluster.onward_of_calls rfl) nofun nofun⟩
  | name => exact Or.inr ⟨nofun, honward (Cluster.onward_of_calls rfl) nofun nofun⟩
  | status => exact Or.inr ⟨nofun, honward (Cluster.onward_of_calls rfl) nofun nofun⟩

end Session

end Custody
