import Custody.Proofs.Session.Reports

/-!
# The ledger of a session

In a play of a session the actors move in any order after each step, until they are at rest. At any
time the reports so far and the calls agree: what has been told of a call is what its status tells,
the last report shows the calls that are pending or void, and those that were given up are the
cancelled ones.
-/

namespace Custody

namespace Session

/-- The call that a step waits for. -/
def Step.awaits : Step → Option Nat
  | .wait n => some n
  | _ => none

/-- The step does not wait for a held call of which somebody has noticed that it will get no
reply. -/
def Careful (s : Session) (st : Step) : Prop :=
  (do
    let n ← st.awaits
    let id ← s.callOf n
    let call ← s.cluster.calls[id]?
    return call.status) ≠ some (Status.pending true .spent)

instance (s : Session) (st : Step) : Decidable (s.Careful st) := inferInstanceAs (Decidable (_ ≠ _))

/-- Some steps carried out with care, the first of which is step `n`, with the actors moving in any
order. -/
inductive Plays (s : Session) (n : Nat) : List Step → Session → List Report → Prop
  | nil : Plays s n [] s []
  | snoc {steps : List Step} {reports : List Report} {t u : Session} {st : Step} {r : Report}
      (before : Plays s n steps t reports) (careful : t.Careful st)
      (turn : Turn t (n + steps.length) st u r) : Plays s n (steps ++ [st]) u (reports ++ [r])

/-- All that some reports tell of call `n`. -/
def told (steps : List Step) (reports : List Report) (n : Nat) : List Outcome :=
  (steps.zip reports).flatMap fun x => x.2.told x.1 n

/-- A step has given up call `n` when it was reported to be open. -/
def GivenUp (steps : List Step) (reports : List Report) (n : Nat) : Prop :=
  ∃ j r standing, steps[j + 1]? = some (.cancel n) ∧ reports[j]? = some r ∧
    (n, standing) ∈ r.opened

variable {setup : Setup} {s t u : Session} {st : Step} {steps early late : List Step}
  {reports before behind : List Report} {id m n : Nat} {call : Call} {r : Report}
  {finding : Option Finding} {acted : Cluster} {target : Target} {k : Key}

/-! ## Plays -/

theorem Plays.counted (h : Plays s n steps t reports) : reports.length = steps.length := by
  induction h with
  | nil => rfl
  | snoc _ _ _ ih =>
    rw [List.length_append, List.length_append, ih]
    rfl

theorem Plays.append (h : Plays s n early t before)
    (h' : Plays t (n + early.length) late u behind) :
    Plays s n (early ++ late) u (before ++ behind) := by
  induction h' with
  | nil =>
    rw [List.append_nil, List.append_nil]
    exact h
  | snoc _ careful turn ih =>
    rw [Nat.add_assoc, ← List.length_append] at turn
    rw [← List.append_assoc, ← List.append_assoc]
    exact ih.snoc careful turn

/-- A play can be stopped after any of its steps. -/
theorem Plays.split (h : Plays s n (early ++ late) u reports) : ∃ t before behind,
    Plays s n early t before ∧ Plays t (n + early.length) late u behind ∧
      reports = before ++ behind := by
  generalize hsteps : early ++ late = steps at h
  induction h generalizing late with
  | nil =>
    obtain ⟨rfl, rfl⟩ := List.append_eq_nil_iff.mp hsteps
    exact ⟨s, [], [], .nil, .nil, rfl⟩
  | @snoc steps reports v u st r first careful turn ih =>
    rcases List.eq_nil_or_concat late with rfl | ⟨rest, last, rfl⟩
    · rw [List.append_nil] at hsteps
      rw [hsteps]
      exact ⟨u, reports ++ [r], [], first.snoc careful turn, .nil, (List.append_nil _).symm⟩
    · rw [List.concat_eq_append, ← List.append_assoc] at hsteps
      obtain ⟨rfl, hlast⟩ := List.append_inj' hsteps rfl
      obtain rfl := List.singleton_inj.mp hlast
      obtain ⟨t, before, behind, hbefore, hbehind, rfl⟩ := ih rfl
      rw [List.length_append, ← Nat.add_assoc] at turn
      rw [List.concat_eq_append]
      exact ⟨t, before, behind ++ [r], hbefore, hbehind.snoc careful turn, List.append_assoc _ _ _⟩

/-! ## What one more report tells -/

theorem told_snoc (hlength : reports.length = steps.length) (st : Step) (r : Report) (n : Nat) :
    told (steps ++ [st]) (reports ++ [r]) n = told steps reports n ++ r.told st n := by
  rw [told, told, List.zip_append hlength.symm, List.flatMap_append]
  simp

theorem givenUp_snoc (hlength : reports.length = steps.length) :
    GivenUp (steps ++ [st]) (reports ++ [r]) n ↔ GivenUp steps reports n ∨ (st = .cancel n ∧
      ∃ last standing, reports.getLast? = some last ∧ (n, standing) ∈ last.opened) := by
  constructor
  · rintro ⟨j, row, standing, hcancel, hrow, hmem⟩
    rcases entry_snoc hcancel with hcancel | ⟨hj, hst⟩
    · left
      have hlt : j + 1 < steps.length := (List.getElem?_eq_some_iff.mp hcancel).1
      rw [List.getElem?_append_left (by omega)] at hrow
      exact ⟨j, row, standing, hcancel, hrow, hmem⟩
    · right
      rw [List.getElem?_append_left (by omega)] at hrow
      refine ⟨hst, row, standing, ?_, hmem⟩
      rw [List.getLast?_eq_getElem?, ← hrow]
      congr 1
      omega
  · rintro (⟨j, row, standing, hcancel, hrow, hmem⟩ | ⟨hst, row, standing, hlast, hmem⟩)
    · have hlt : j + 1 < steps.length := (List.getElem?_eq_some_iff.mp hcancel).1
      refine ⟨j, row, standing, ?_, ?_, hmem⟩
      · rw [List.getElem?_append_left hlt, hcancel]
      · rw [List.getElem?_append_left (by omega), hrow]
    · rw [List.getLast?_eq_getElem?] at hlast
      have hlt : reports.length - 1 < reports.length := (List.getElem?_eq_some_iff.mp hlast).1
      refine ⟨reports.length - 1, row, standing, ?_, ?_, hmem⟩
      · have hindex : reports.length - 1 + 1 = steps.length := by omega
        rw [hindex, List.getElem?_concat_length, hst]
      · rw [List.getElem?_append_left hlt, hlast]

/-! ## The ledger -/

/-- What is known of a session after some steps and their reports. -/
structure Ledger (steps : List Step) (reports : List Report) (s : Session) : Prop where
  length : s.origins.length = s.cluster.calls.length
  counted : reports.length = steps.length
  nodup : s.origins.Nodup
  past : ∀ n ∈ s.origins, n < steps.length
  made : ∀ (n : Nat) target k, steps[n]? = some (.call target k) → ∃ (id : Nat) (call : Call),
    s.origins[id]? = some n ∧ s.cluster.calls[id]? = some call ∧ call.target = target
  last : ∀ r, reports.getLast? = some r → r.opened = opened s.origins s.cluster
  first : steps = [] → s.cluster.calls = []
  tells : ∀ (id n : Nat) (call : Call), s.origins[id]? = some n →
    s.cluster.calls[id]? = some call → Cluster.reported call = true →
      told steps reports n = call.status.told ∧
        (GivenUp steps reports n ↔ call.status = .cancelled)
  others : ∀ n, n ∉ s.origins → told steps reports n = [] ∧ ¬ GivenUp steps reports n
  rest : ∀ (id : Nat) (call : Call) slot, s.cluster.calls[id]? = some call →
    call.status = .pending false slot → slot = .empty

theorem ledger_start : Ledger [] [] (start setup) where
  length := rfl
  counted := rfl
  nodup := List.nodup_nil
  past n hn := by cases hn
  made n target k h := by cases h
  last r h := by cases h
  first _ := rfl
  tells id n call hid := by cases hid
  others n _ := by
    refine ⟨rfl, ?_⟩
    rintro ⟨j, r, standing, h, _⟩
    cases h
  rest id call slot hcall := by cases hcall

/-- The last report shows who is open. -/
theorem Ledger.open_iff (ledger : Ledger steps reports s) (hid : s.origins[id]? = some n)
    (hcall : s.cluster.calls[id]? = some call) (hreported : Cluster.reported call = true)
    (standing : Standing) : (∃ last, reports.getLast? = some last ∧ (n, standing) ∈ last.opened) ↔
      s.cluster.standing id call = some standing := by
  have hrow : (n, standing) ∈ opened s.origins s.cluster ↔
      s.cluster.standing id call = some standing := by
    rw [← mem_named, named_opened ledger.length ledger.nodup hid hcall hreported,
      Option.mem_toList]
  constructor
  · rintro ⟨last, hlast, hmem⟩
    rw [ledger.last last hlast] at hmem
    exact hrow.mp hmem
  · intro hstanding
    cases hlast : reports.getLast? with
    | none =>
      -- a session without reports has made no call
      rw [List.getLast?_eq_none_iff] at hlast
      have hnone := ledger.first (List.length_eq_zero_iff.mp (by rw [← ledger.counted, hlast]; rfl))
      rw [hnone] at hcall
      cases hcall
    | some last => exact ⟨last, rfl, (ledger.last last hlast) ▸ hrow.mpr hstanding⟩

theorem Ledger.listed_iff (ledger : Ledger steps reports s) (hid : s.origins[id]? = some n)
    (hcall : s.cluster.calls[id]? = some call) (hreported : Cluster.reported call = true) :
    (∃ last standing, reports.getLast? = some last ∧ (n, standing) ∈ last.opened) ↔
      call.status.isListed = true := by
  rw [← isSome_standing s.cluster id call, Option.isSome_iff_exists]
  constructor
  · rintro ⟨last, standing, hlast, hmem⟩
    exact ⟨standing, (ledger.open_iff hid hcall hreported standing).mp ⟨last, hlast, hmem⟩⟩
  · rintro ⟨standing, hstanding⟩
    obtain ⟨last, hlast, hmem⟩ := (ledger.open_iff hid hcall hreported standing).mpr hstanding
    exact ⟨last, standing, hlast, hmem⟩

/-! ## One step -/

theorem treated_of_effect (nodup : s.origins.Nodup) (h : s.effect st = some (acted, finding))
    (hid : s.origins[id]? = some n) (hcall : s.cluster.calls[id]? = some call) :
    Treated st finding n call acted id := by
  rcases effect_cases nodup h with hmakes | ⟨_, _, htreated⟩
  · have hacted : acted.calls[id]? = some call :=
      (hmakes.old id (List.getElem?_eq_some_iff.mp hcall).1).trans hcall
    obtain ⟨_, _, ⟨k, hstep, _⟩ | ⟨hstep, _⟩⟩ := hmakes.made
    · rw [hstep]
      exact treated_of_same hacted (finds_of_other nofun) nofun
    · rw [hstep]
      exact treated_of_same hacted (finds_of_other nofun) nofun
  · exact htreated id n call hid hcall

/-- Only a call that was made can be found to have a reply. -/
theorem finds_of_unknown (h : s.effect st = some (acted, finding)) (hn : n ∉ s.origins) :
    st.finds finding n = [] := by
  cases effects_of_effect h with
  | @take m c _ named =>
    have hne : m ≠ n := by
      rintro rfl
      exact hn (List.mem_of_getElem? (origin_of_callOf named))
    cases s.cluster.peek c with
    | none => rfl
    | some a => exact if_neg hne
  | _ => exact finds_of_other nofun

/-- How a session has grown in step `n`: by a call that will be reported, by one for a snapshot, or
not at all. -/
inductive Grows (s t : Session) (n : Nat) (st : Step) : Prop
  | call (call : Call) (k : Key) (origins : t.origins = s.origins ++ [n])
      (made : t.cluster.calls[s.origins.length]? = some call) (step : st = .call call.target k)
      (told : call.status.told = call.status.tells?.toList) (kept : call.status ≠ .cancelled)
  | snapshot (call : Call) (origins : t.origins = s.origins ++ [n])
      (made : t.cluster.calls[s.origins.length]? = some call) (step : st = .dropSnapshot)
      (target : call.target = .snapshot)
  | none (origins : t.origins = s.origins) (other : ∀ target k, st ≠ .call target k)

theorem told_of_fresh {a b : Status} (h : a.Fresh) (h' : a.Follows b) :
    b.told = b.tells?.toList ∧ b ≠ .cancelled := by
  cases h' with
  | same => cases a with
    | pending held slot => exact ⟨rfl, nofun⟩
    | ended o => exact ⟨rfl, nofun⟩
    | taken x => cases h
    | cancelled => cases h
  | heard => exact ⟨rfl, nofun⟩
  | ended => exact ⟨rfl, nofun⟩

theorem grows_of_step (nodup : s.origins.Nodup)
    (hlength : s.origins.length = s.cluster.calls.length) (h : Turn s n st t r) :
    t.origins.length = t.cluster.calls.length ∧ Grows s t n st := by
  obtain ⟨acted, finding, heffect, honward, _, horigins, _⟩ := turn_cases h
  have hsettled : t.cluster.calls.length = acted.calls.length :=
    (List.Forall₂.length_eq honward).symm
  rcases effect_cases nodup heffect with ⟨hgrows, _, call, hcall, hmade⟩ | ⟨hother, hsame, _⟩
  · have hone : acted.calls.length - s.origins.length = 1 := by omega
    rw [hone] at horigins
    refine ⟨?_, ?_⟩
    · rw [horigins, hsettled, hgrows, ← hlength]
      exact List.length_append
    · obtain ⟨call', hcall', hbecomes⟩ := honward.after hcall
      rw [← hlength] at hcall'
      rw [← hbecomes.target] at hmade
      rcases hmade with ⟨k, hstep, hfresh⟩ | ⟨hstep, htarget⟩
      · obtain ⟨htold, hkept⟩ := told_of_fresh hfresh hbecomes.follows
        exact .call call' k horigins hcall' hstep htold hkept
      · exact .snapshot call' horigins hcall' hstep htarget.1
  · have hnone : acted.calls.length - s.origins.length = 0 := by omega
    rw [hnone] at horigins
    have horigins : t.origins = s.origins := horigins.trans (List.append_nil _)
    refine ⟨?_, .none horigins hother⟩
    rw [horigins, hsettled, hsame, hlength]

theorem Grows.origins_cases (grows : Grows s t m st) :
    t.origins = s.origins ∨ t.origins = s.origins ++ [m] := by
  cases grows with
  | call _ _ origins => exact Or.inr origins
  | snapshot _ origins => exact Or.inr origins
  | none origins => exact Or.inl origins

/-- Calls keep the names they have. -/
theorem Grows.kept (grows : Grows s t m st) (hid : s.origins[id]? = some n) :
    t.origins[id]? = some n := by
  have hlt := (List.getElem?_eq_some_iff.mp hid).1
  rcases grows.origins_cases with horigins | horigins
  · rw [horigins, hid]
  · rw [horigins, List.getElem?_append_left hlt, hid]

theorem Grows.mem_kept (grows : Grows s t m st) (hn : n ∉ t.origins) : n ∉ s.origins := by
  intro hmem
  obtain ⟨id, hid⟩ := List.getElem?_of_mem hmem
  exact hn (List.mem_of_getElem? (grows.kept hid))

/-- A new call has the name of the step. -/
theorem Grows.old_or_new (grows : Grows s t m st) (hid : t.origins[id]? = some n) :
    s.origins[id]? = some n ∨ (id = s.origins.length ∧ m = n) := by
  rcases grows.origins_cases with horigins | horigins
  · rw [horigins] at hid
    exact Or.inl hid
  · rw [horigins] at hid
    exact entry_snoc hid

theorem Grows.nodup (grows : Grows s t m st) (nodup : s.origins.Nodup) (hm : m ∉ s.origins) :
    t.origins.Nodup := by
  rcases grows.origins_cases with horigins | horigins
  · rw [horigins]
    exact nodup
  · rw [horigins, ← List.concat_eq_append]
    exact nodup.concat hm

namespace Ledger

theorem fresh (ledger : Ledger steps reports s) : steps.length ∉ s.origins := by
  intro hmem
  have hlt := ledger.past _ hmem
  omega

/-- What a step reports of a call that was there before it, and what becomes of the call. -/
theorem old (ledger : Ledger steps reports s) (h : Turn s steps.length st t r)
    (hid : s.origins[id]? = some n) (hcall : s.cluster.calls[id]? = some call) :
    ∃ call', t.cluster.calls[id]? = some call' ∧ call'.target = call.target ∧
      (Cluster.reported call = true → call.status.told ++ r.told st n = call'.status.told ∧
        (call'.status = .cancelled ↔ call.status = .cancelled ∨
          (call.status.isListed = true ∧ st = .cancel n))) := by
  obtain ⟨hlength, hgrows⟩ := grows_of_step ledger.nodup ledger.length h
  obtain ⟨acted, finding, heffect, honward, _, _, hended, _, hfinds⟩ := turn_cases h
  have htreated := treated_of_effect ledger.nodup heffect hid hcall
  cases hreported : Cluster.reported call with
  | true =>
    obtain ⟨call', hcall', htarget, htold⟩ := told_of_treated hlength
      (hgrows.nodup ledger.nodup ledger.fresh) (hgrows.kept hid) hcall hreported htreated honward
      hended (hfinds n)
    exact ⟨call', hcall', htarget, fun _ => htold⟩
  | false =>
    obtain ⟨call₁, hcall₁, htarget₁, _⟩ := htreated
    obtain ⟨call₂, hcall₂, hbecomes⟩ := honward.after hcall₁
    exact ⟨call₂, hcall₂, hbecomes.target.trans htarget₁, nofun⟩

/-- What has been told of a call that was there before the last step. -/
theorem told_old (ledger : Ledger steps reports s) (h : Turn s steps.length st t r)
    (hid : s.origins[id]? = some n) (hcall : t.cluster.calls[id]? = some call)
    (hreported : Cluster.reported call = true) :
    told (steps ++ [st]) (reports ++ [r]) n = call.status.told ∧
      (GivenUp (steps ++ [st]) (reports ++ [r]) n ↔ call.status = .cancelled) := by
  have hlt : id < s.cluster.calls.length := by
    rw [← ledger.length]
    exact (List.getElem?_eq_some_iff.mp hid).1
  have hbefore : s.cluster.calls[id]? = some s.cluster.calls[id] := List.getElem?_eq_getElem hlt
  obtain ⟨call', hcall', htarget, hold⟩ := ledger.old h hid hbefore
  obtain rfl := Option.some.inj (hcall.symm.trans hcall')
  have hreported' : Cluster.reported s.cluster.calls[id] = true := by
    rw [Cluster.reported, ← htarget]
    exact hreported
  obtain ⟨htold, hgone⟩ := hold hreported'
  obtain ⟨htold', hgone'⟩ := ledger.tells id n _ hid hbefore hreported'
  refine ⟨?_, ?_⟩
  · rw [told_snoc ledger.counted, htold', htold]
  · have hopen := ledger.listed_iff hid hbefore hreported'
    rw [givenUp_snoc ledger.counted, hgone', hgone, hopen, and_comm]

/-- What has been told of a call that the last step has made. -/
theorem told_new (ledger : Ledger steps reports s) (h : Turn s steps.length st t r)
    (hid : t.origins[s.origins.length]? = some steps.length)
    (hcall : t.cluster.calls[s.origins.length]? = some call)
    (hreported : Cluster.reported call = true) :
    told (steps ++ [st]) (reports ++ [r]) steps.length = call.status.told ∧
      (GivenUp (steps ++ [st]) (reports ++ [r]) steps.length ↔ call.status = .cancelled) := by
  obtain ⟨hlength, hgrows⟩ := grows_of_step ledger.nodup ledger.length h
  obtain ⟨acted, finding, heffect, _, _, _, hended, _, hfinds⟩ := turn_cases h
  obtain ⟨huntold, hungiven⟩ := ledger.others _ ledger.fresh
  have hnodup := hgrows.nodup ledger.nodup ledger.fresh
  cases hgrows with
  | call call' k origins made step told kept =>
    obtain rfl := Option.some.inj (hcall.symm.trans made)
    have huntold' : (s.cluster.tells? s.origins.length).isNone = true := by
      rw [Cluster.tells?, ledger.length, List.getElem?_eq_none (Nat.le_refl _)]
      rfl
    refine ⟨?_, ?_⟩
    · rw [told_snoc ledger.counted, huntold, Report.told, hfinds,
        finds_of_unknown heffect ledger.fresh, hended,
        named_ended hlength hnodup hid hcall hreported, huntold', told]
      simp
    · rw [givenUp_snoc ledger.counted, step]
      simp [hungiven, kept]
  | snapshot call' origins made step target =>
    obtain rfl := Option.some.inj (hcall.symm.trans made)
    rw [Cluster.reported, target] at hreported
    cases hreported
  | none origins _ =>
    rw [origins, List.getElem?_eq_none (Nat.le_refl _)] at hid
    cases hid

theorem untold (ledger : Ledger steps reports s) (h : Turn s steps.length st t r)
    (hn : n ∉ t.origins) : told (steps ++ [st]) (reports ++ [r]) n = [] ∧
      ¬ GivenUp (steps ++ [st]) (reports ++ [r]) n := by
  obtain ⟨hlength, hgrows⟩ := grows_of_step ledger.nodup ledger.length h
  obtain ⟨acted, finding, heffect, _, _, _, hended, _, hfinds⟩ := turn_cases h
  have hn' := hgrows.mem_kept hn
  obtain ⟨huntold, hungiven⟩ := ledger.others n hn'
  refine ⟨?_, ?_⟩
  · rw [told_snoc ledger.counted, huntold, Report.told, hended, named_ended_of_other hn, hfinds,
      finds_of_unknown heffect hn']
    rfl
  · rw [givenUp_snoc ledger.counted]
    rintro (hgiven | ⟨_, last, standing, hlast, hmem⟩)
    · exact hungiven hgiven
    · rw [ledger.last last hlast, ← mem_named, named_opened_of_other hn'] at hmem
      cases hmem

theorem made_after (ledger : Ledger steps reports s) (h : Turn s steps.length st t r)
    (hn : (steps ++ [st])[n]? = some (.call target k)) : ∃ (id : Nat) (call : Call),
      t.origins[id]? = some n ∧ t.cluster.calls[id]? = some call ∧ call.target = target := by
  obtain ⟨_, hgrows⟩ := grows_of_step ledger.nodup ledger.length h
  rcases entry_snoc hn with hold | ⟨rfl, rfl⟩
  · obtain ⟨id, call, hid, hcall, htarget⟩ := ledger.made n target k hold
    obtain ⟨call', hcall', htarget', _⟩ := ledger.old h hid hcall
    exact ⟨id, call', hgrows.kept hid, hcall', htarget'.trans htarget⟩
  · cases hgrows with
    | call call k' origins made step =>
      refine ⟨s.origins.length, call, ?_, made, ?_⟩
      · rw [origins, List.getElem?_concat_length]
      · exact (Step.call.inj step).1.symm
    | snapshot _ _ _ step => cases step
    | none _ other => exact absurd rfl (other target k)

theorem step (ledger : Ledger steps reports s) (h : Turn s steps.length st t r) :
    Ledger (steps ++ [st]) (reports ++ [r]) t := by
  obtain ⟨hlength, hgrows⟩ := grows_of_step ledger.nodup ledger.length h
  obtain ⟨acted, finding, _, _, hrest, _, _, hopened, _⟩ := turn_cases h
  refine
    { length := hlength
      counted := ?_
      nodup := hgrows.nodup ledger.nodup ledger.fresh
      past := ?_
      made := fun n target k hn => ledger.made_after h hn
      last := ?_
      first := fun hnil => absurd hnil (List.append_ne_nil_of_right_ne_nil _ (List.cons_ne_nil _ _))
      tells := ?_
      others := fun n hn => ledger.untold h hn
      rest := fun id call slot hcall hstatus => Cluster.empty_of_atRest hrest hcall hstatus }
  · rw [List.length_append, List.length_append, ledger.counted]
    rfl
  · intro n hn
    rw [List.length_append, List.length_singleton]
    obtain ⟨id, hid⟩ := List.getElem?_of_mem hn
    rcases hgrows.old_or_new hid with hold | ⟨_, rfl⟩
    · exact Nat.lt_succ_of_lt (ledger.past n (List.mem_of_getElem? hold))
    · exact Nat.lt_succ_self _
  · intro last hlast
    rw [List.getLast?_concat] at hlast
    rw [← Option.some.inj hlast, hopened]
  · intro id n call hid hcall hreported
    rcases hgrows.old_or_new hid with hold | ⟨rfl, rfl⟩
    · exact ledger.told_old h hold hcall hreported
    · exact ledger.told_new h hid hcall hreported

end Ledger

theorem ledger_of_plays (h : Plays (start setup) 0 steps s reports) : Ledger steps reports s := by
  induction h with
  | nil => exact ledger_start
  | snoc _ _ turn ih =>
    rw [Nat.zero_add] at turn
    exact ih.step turn

end Session

end Custody
