import Custody.Proofs.Session.Turns

/-!
# What a report says of a call

A report has a row for each call that has ended in the step and for each call that is still open,
named after the step that made the call. No two calls were made by one step, so what a report says
under one name is about one call.
-/

namespace Custody

namespace Session

section

variable {α β : Type} {xs : List α} {label : α → Nat} {g : α → Option (Nat × β)} {n : Nat} {x : α}

theorem named_of_other (hg : ∀ x y, g x = some y → y.1 = label x) (hn : ∀ x ∈ xs, label x ≠ n) :
    named n (xs.filterMap g) = [] := by
  rw [named, List.filterMap_filterMap, List.filterMap_eq_nil_iff]
  intro x hx
  cases hgx : g x with
  | none => rfl
  | some y =>
    have hne : y.1 ≠ n := by
      rw [hg x y hgx]
      exact hn x hx
    exact if_neg hne

/-- Where no two rows have the same label, one row tells all that is said under its label. -/
theorem named_of_row (hg : ∀ x y, g x = some y → y.1 = label x) (nodup : (xs.map label).Nodup)
    (hx : x ∈ xs) : named (label x) (xs.filterMap g) = ((g x).map Prod.snd).toList := by
  induction xs with
  | nil => cases hx
  | cons a rest ih =>
    obtain ⟨hfresh, hrest⟩ := List.nodup_cons.mp nodup
    have hsplit : named (label x) ((a :: rest).filterMap g) =
        named (label x) ([a].filterMap g) ++ named (label x) (rest.filterMap g) := by
      rw [named, named, named, ← List.filterMap_append, ← List.filterMap_append]
      rfl
    rw [hsplit]
    rcases List.mem_cons.mp hx with rfl | hmem
    · have hother : named (label x) (rest.filterMap g) = [] := by
        apply named_of_other hg
        intro y hy heq
        exact hfresh (List.mem_map.mpr ⟨y, hy, heq⟩)
      rw [hother, List.append_nil]
      cases hgx : g x with
      | none => simp [named, hgx]
      | some y => simp [named, hgx, hg x y hgx]
    · have hother : named (label x) ([a].filterMap g) = [] := by
        apply named_of_other hg
        intro y hy heq
        rw [List.mem_singleton.mp hy] at heq
        exact hfresh (List.mem_map.mpr ⟨x, hmem, heq.symm⟩)
      rw [hother, List.nil_append]
      exact ih hrest hmem

end

variable {s t : Session} {st : Step} {finding : Option Finding} {acted before after : Cluster}
  {id m n : Nat} {call : Call} {r : Report} {origins : List Nat}

/-! ## Rows -/

/-- The calls with the steps that made them and with their numbers. -/
def rows (origins : List Nat) (s : Cluster) : List ((Nat × Call) × Nat) :=
  (origins.zip s.calls).zipIdx

theorem mem_rows (hid : origins[id]? = some n) (hcall : after.calls[id]? = some call) :
    ((n, call), id) ∈ rows origins after := by
  rw [rows, List.mk_mem_zipIdx_iff_getElem?, List.getElem?_zip_eq_some]
  exact ⟨hid, hcall⟩

theorem label_rows (hlength : origins.length = after.calls.length) :
    (rows origins after).map (fun x => x.1.1) = origins := by
  have hfst : (rows origins after).map (fun x => x.1.1) =
      ((rows origins after).map Prod.fst).map Prod.fst := by
    rw [List.map_map]
    rfl
  rw [hfst, rows, List.zipIdx_map_fst, List.map_fst_zip (Nat.le_of_eq hlength)]

theorem named_rows {β : Type} {g : (Nat × Call) × Nat → Option (Nat × β)}
    (hg : ∀ x y, g x = some y → y.1 = x.1.1) (hlength : origins.length = after.calls.length)
    (nodup : origins.Nodup) (hid : origins[id]? = some n) (hcall : after.calls[id]? = some call) :
    named n ((rows origins after).filterMap g) = ((g ((n, call), id)).map Prod.snd).toList := by
  have hlabels : ((rows origins after).map fun x => x.1.1).Nodup := by
    rw [label_rows hlength]
    exact nodup
  exact named_of_row hg hlabels (mem_rows hid hcall)

theorem named_rows_of_other {β : Type} {g : (Nat × Call) × Nat → Option (Nat × β)}
    (hg : ∀ x y, g x = some y → y.1 = x.1.1) (hn : n ∉ origins) :
    named n ((rows origins after).filterMap g) = [] := by
  apply named_of_other hg
  rintro ⟨⟨m, call⟩, id⟩ hmem rfl
  rw [rows, List.mk_mem_zipIdx_iff_getElem?, List.getElem?_zip_eq_some] at hmem
  exact hn (List.mem_of_getElem? hmem.1)

/-- The row of a call that has told its outcome since `before`. -/
def endedRow (before : Cluster) (x : (Nat × Call) × Nat) : Option (Nat × Outcome) :=
  if Cluster.reported x.1.2 && (before.tells? x.2).isNone then
    x.1.2.status.tells?.map fun o => (x.1.1, o)
  else none

theorem ended_eq_rows (origins : List Nat) (before after : Cluster) :
    ended origins before after = (rows origins after).filterMap (endedRow before) := rfl

theorem endedRow_label (x : (Nat × Call) × Nat) (y : Nat × Outcome)
    (h : endedRow before x = some y) : y.1 = x.1.1 := by
  unfold endedRow at h
  split at h
  · obtain ⟨o, _, rfl⟩ := Option.map_eq_some_iff.mp h
    rfl
  · cases h

theorem named_ended (hlength : origins.length = after.calls.length) (nodup : origins.Nodup)
    (hid : origins[id]? = some n) (hcall : after.calls[id]? = some call)
    (hreported : Cluster.reported call = true) : named n (ended origins before after) =
      if (before.tells? id).isNone then call.status.tells?.toList else [] := by
  rw [ended_eq_rows, named_rows endedRow_label hlength nodup hid hcall, endedRow, hreported]
  cases (before.tells? id).isNone with
  | false => rfl
  | true => cases call.status.tells? <;> rfl

theorem named_ended_of_other (hn : n ∉ origins) : named n (ended origins before after) = [] := by
  rw [ended_eq_rows, named_rows_of_other endedRow_label hn]

/-- The row of a call that is open. -/
def openedRow (s : Cluster) (x : (Nat × Call) × Nat) : Option (Nat × Standing) :=
  if Cluster.reported x.1.2 then (s.standing x.2 x.1.2).map fun st => (x.1.1, st) else none

theorem opened_eq_rows (origins : List Nat) (s : Cluster) :
    opened origins s = (rows origins s).filterMap (openedRow s) := rfl

theorem openedRow_label (x : (Nat × Call) × Nat) (y : Nat × Standing)
    (h : openedRow after x = some y) : y.1 = x.1.1 := by
  unfold openedRow at h
  split at h
  · obtain ⟨standing, _, rfl⟩ := Option.map_eq_some_iff.mp h
    rfl
  · cases h

theorem named_opened (hlength : origins.length = after.calls.length) (nodup : origins.Nodup)
    (hid : origins[id]? = some n) (hcall : after.calls[id]? = some call)
    (hreported : Cluster.reported call = true) :
    named n (opened origins after) = (after.standing id call).toList := by
  rw [opened_eq_rows, named_rows openedRow_label hlength nodup hid hcall, openedRow, hreported]
  cases after.standing id call <;> rfl

theorem named_opened_of_other (hn : n ∉ origins) : named n (opened origins after) = [] := by
  rw [opened_eq_rows, named_rows_of_other openedRow_label hn]

theorem mem_named {α : Type} {l : List (Nat × α)} {a : α} : a ∈ named n l ↔ (n, a) ∈ l := by
  rw [named, List.mem_filterMap]
  constructor
  · rintro ⟨⟨m, b⟩, hmem, hb⟩
    split at hb
    · rename_i hm
      cases hm
      cases hb
      exact hmem
    · cases hb
  · intro hmem
    exact ⟨(n, a), hmem, if_pos rfl⟩

/-- Every call that is pending or void stands somewhere, and no other does. -/
theorem isSome_standing (s : Cluster) (id : Nat) (call : Call) :
    (s.standing id call).isSome = call.status.isListed := by
  obtain ⟨target, key, status⟩ := call
  cases status with
  | pending held slot =>
    cases target with
    | client i act manner =>
      cases manner with
      | attached => rfl
      | dispatched held' =>
        simp only [Cluster.standing]
        split
        · rfl
        · split <;> rfl
    | store op => rfl
    | snapshot => rfl
  | ended o => cases o <;> cases target <;> rfl
  | _ => cases target <;> rfl

/-! ## A step and its report -/

/-- The session and the report of step `n`, which has made `acted` of the cluster, when the actors
have come to rest in `after`. -/
def close (s : Session) (n : Nat) (st : Step) (acted : Cluster) (found : Option Finding)
    (after : Cluster) : Session × Report :=
  let origins := s.origins ++ List.replicate (acted.calls.length - s.origins.length) n
  let finding := match st with
    | .status => some (.running after.keeper.running (after.members.map (·.running)))
    | _ => found
  (⟨after, origins⟩,
    { ended := ended origins s.cluster after
      opened := opened origins after
      store := if after.keeper.handle then some after.sight else none
      finding })

/-- Step `n` and its report, when the actors move in some order until they are at rest. -/
def Turn (s : Session) (n : Nat) (st : Step) (t : Session) (r : Report) : Prop :=
  ∃ acted found after, s.effect st = some (acted, found) ∧
    (∃ (moves : List Move) (es : List Event), acted.run (moves.map .move) = some (after, es)) ∧
    after.atRest = true ∧ s.close n st acted found after = (t, r)

/-- The program has the actors move in an order of its own. -/
theorem turn_of_step (h : s.step n st = some (t, r)) : Turn s n st t r := by
  obtain ⟨⟨acted, found⟩, heffect, h⟩ := Option.bind_eq_some_iff.mp h
  obtain ⟨moves, es, hrun, hrest⟩ := acted.run_settle
  exact ⟨acted, found, acted.settle, heffect, ⟨moves, es, hrun⟩, hrest, Option.some.inj h⟩

theorem reaches_of_turn (h : Turn s n st t r) (hvoid : ∀ c, s.cluster.ended? c ≠ some .void) :
    s.cluster.Reaches t.cluster := by
  obtain ⟨acted, found, after, heffect, ⟨moves, es, hrun⟩, _, hclose⟩ := h
  obtain ⟨rfl, rfl⟩ := Prod.mk.inj hclose
  exact (reaches_of_effect heffect hvoid).trans ⟨_, es, hrun⟩

theorem turn_cases (h : Turn s n st t r) : ∃ acted finding,
    s.effect st = some (acted, finding) ∧ acted.Onward t.cluster ∧ t.cluster.atRest = true ∧
      t.origins = s.origins ++ List.replicate (acted.calls.length - s.origins.length) n ∧
      r.ended = ended t.origins s.cluster t.cluster ∧ r.opened = opened t.origins t.cluster ∧
      ∀ m, st.finds r.finding m = st.finds finding m := by
  obtain ⟨acted, finding, after, heffect, ⟨moves, es, hrun⟩, hrest, hclose⟩ := h
  obtain ⟨rfl, rfl⟩ := Prod.mk.inj hclose
  refine ⟨acted, finding, heffect, Cluster.onward_run hrun, hrest, rfl, rfl, rfl, fun m => ?_⟩
  cases st <;> rfl

/-- What a step adds to what has been told of a call is what the call's status tells after it. -/
theorem told_of_handled {a b c : Status} (h : Handled st finding n a b) (h' : b.Follows c) :
    a.told ++ ((if a.tells?.isNone then c.tells?.toList else []) ++ st.finds finding n) =
      c.told := by
  cases h with
  | left follows nothing _ =>
    rw [nothing, List.append_nil]
    cases follows.trans h' with
    | same =>
      cases a with
      | ended o => cases o <;> rfl
      | _ => rfl
    | heard held slot _ => rfl
    | ended held slot o _ => rfl
  | taken x _ finds =>
    rw [finds, h'.eq_of_done rfl]
    rfl
  | noticed _ nothing =>
    rw [nothing, List.append_nil]
    cases h' with
    | same => rfl
    | ended => rfl
  | awaited slot _ nothing =>
    rw [nothing, List.append_nil]
    cases h' with
    | same => rfl
    | heard => rfl
    | ended => rfl
  | cancelled _ _ listed nothing =>
    rw [nothing, h'.eq_of_done rfl]
    cases a with
    | pending held slot => rfl
    | ended o =>
      cases o with
      | void => rfl
      | _ => cases listed
    | _ => cases listed

theorem cancelled_of_handled {a b c : Status} (h : Handled st finding n a b) (h' : b.Follows c) :
    c = .cancelled ↔ a = .cancelled ∨ (a.isListed = true ∧ st = .cancel n) := by
  cases h with
  | left follows _ kept =>
    have hsame : c = .cancelled ↔ a = .cancelled := by
      cases follows.trans h' with
      | same => rfl
      | heard => simp
      | ended => simp
    rw [hsame]
    constructor
    · exact Or.inl
    · rintro (hgone | ⟨hlisted, hstep⟩)
      · exact hgone
      · rw [kept hstep] at hlisted
        cases hlisted
  | taken x step _ =>
    rw [h'.eq_of_done rfl, step]
    simp
  | noticed step _ =>
    rw [step]
    cases h' <;> simp
  | awaited slot step _ =>
    rw [step]
    cases h' <;> simp
  | cancelled _ step listed _ =>
    rw [h'.eq_of_done rfl]
    exact ⟨fun _ => Or.inr ⟨listed, step⟩, fun _ => rfl⟩

/-- What a step tells of a call that was there before. -/
theorem told_of_treated (hlength : t.origins.length = t.cluster.calls.length)
    (nodup : t.origins.Nodup) (hid : t.origins[id]? = some n)
    (hcall : s.cluster.calls[id]? = some call) (hreported : Cluster.reported call = true)
    (htreated : Treated st finding n call acted id) (honward : acted.Onward t.cluster)
    (hended : r.ended = ended t.origins s.cluster t.cluster)
    (hfinds : st.finds r.finding n = st.finds finding n) :
    ∃ call', t.cluster.calls[id]? = some call' ∧ call'.target = call.target ∧
      call.status.told ++ r.told st n = call'.status.told ∧
      (call'.status = .cancelled ↔ call.status = .cancelled ∨
        (call.status.isListed = true ∧ st = .cancel n)) := by
  obtain ⟨call₁, hcall₁, htarget₁, hhandled⟩ := htreated
  obtain ⟨call₂, hcall₂, hbecomes⟩ := honward.after hcall₁
  have htarget := hbecomes.target.trans htarget₁
  have hreported₂ : Cluster.reported call₂ = true := by
    rw [Cluster.reported, htarget]
    exact hreported
  refine ⟨call₂, hcall₂, htarget, ?_, cancelled_of_handled hhandled hbecomes.follows⟩
  rw [Report.told, hended, hfinds, named_ended hlength nodup hid hcall₂ hreported₂,
    ← told_of_handled hhandled hbecomes.follows, Cluster.tells?_of_call hcall]

end Session

end Custody
