import Custody.Proofs.Session.Ledger
import Custody.Proofs.Stop.Steps

/-!
# Every call is accounted for

After each step of a session every call made so far stands in one way, as far as the reports show:
it has ended, and that has been told once; or it was given up; or it is open, and the last report
says how. A call that has ended or was given up stands like that for good, whatever is done later
and in whatever order the actors move.
-/

namespace Custody

/-- Somebody waits, or has waited, for a reply of which it was clear that it would not come. -/
def Status.Spoiled : Status → Prop
  | pending false .spent => True
  | ended .void => True
  | _ => False

namespace Session

inductive Account where
  | ended (o : Outcome)
  | cancelled
  | opened (standing : Standing)

/-- The call does not come up again. -/
def Account.Final : Account → Prop
  | opened _ => False
  | _ => True

/-- How call `n` stands after some steps, as far as their reports show. -/
def Stands (steps : List Step) (reports : List Report) (n : Nat) : Account → Prop
  | .ended o => o ∈ told steps reports n
  | .cancelled => GivenUp steps reports n
  | .opened standing => ∃ r, reports.getLast? = some r ∧ (n, standing) ∈ r.opened

/-- Call `n` stands in one way, and no more than one outcome of it was told. -/
structure Accounted (steps : List Step) (reports : List Report) (n : Nat) : Prop where
  one : ∃! a, Stands steps reports n a
  once : (told steps reports n).length ≤ 1
  earned : .void ∉ told steps reports n

/-- How a call stands, by its status. -/
def account (s : Session) (id : Nat) (call : Call) : Option Account :=
  match call.status with
  | .pending .. | .ended .void => (s.cluster.standing id call).map .opened
  | .ended o => some (.ended o)
  | .taken a => some (.ended (.answered a))
  | .cancelled => some .cancelled

variable {setup : Setup} {s t u : Session} {st : Step} {steps early late : List Step}
  {reports before behind : List Report} {id m n : Nat} {call : Call} {r : Report}
  {finding : Option Finding} {acted : Cluster} {target : Target} {k : Key} {a : Account}

/-! ## What the reports show is what the status says -/

theorem isSome_account (s : Session) (id : Nat) (call : Call) :
    (s.account id call).isSome = true := by
  rw [account]
  split
  · rename_i hstatus
    rw [Option.isSome_map, isSome_standing, hstatus]
    rfl
  · rename_i hstatus
    rw [Option.isSome_map, isSome_standing, hstatus]
    rfl
  · rfl
  · rfl
  · rfl

theorem Ledger.stands_iff (ledger : Ledger steps reports s) (hid : s.origins[id]? = some n)
    (hcall : s.cluster.calls[id]? = some call) (hreported : Cluster.reported call = true) :
    Stands steps reports n a ↔ s.account id call = some a := by
  obtain ⟨htold, hgone⟩ := ledger.tells id n call hid hcall hreported
  have hopen := ledger.open_iff hid hcall hreported
  have hlisted := isSome_standing s.cluster id call
  rw [account]
  cases a with
  | ended o =>
    rw [Stands, htold]
    cases hstatus : call.status with
    | pending held slot => simp [Status.told, Status.tells?]
    | ended o' => cases o' <;> simp [Status.told, Status.tells?, eq_comm]
    | taken x => simp [Status.told, eq_comm]
    | cancelled => simp [Status.told, Status.tells?]
  | cancelled =>
    rw [Stands, hgone]
    cases hstatus : call.status with
    | ended o' => cases o' <;> simp
    | _ => simp
  | opened standing =>
    rw [Stands, hopen]
    have hclosed : call.status.isListed = false → s.cluster.standing id call = none := by
      intro hover
      rw [hover] at hlisted
      exact Option.not_isSome_iff_eq_none.mp (by rw [hlisted]; exact Bool.false_ne_true)
    cases hstatus : call.status with
    | pending held slot => simp
    | ended o' =>
      rw [hstatus] at hclosed
      cases o' with
      | void => simp
      | _ => simp [hclosed rfl]
    | _ =>
      rw [hstatus] at hclosed
      simp [hclosed rfl]

/-- A step that has made a call is accounted for by that call. -/
theorem Ledger.reported_of_made (ledger : Ledger steps reports s)
    (hn : steps[n]? = some (.call target k)) (htarget : target ≠ .snapshot) :
    ∃ (id : Nat) (call : Call), s.origins[id]? = some n ∧ s.cluster.calls[id]? = some call ∧
      Cluster.reported call = true := by
  obtain ⟨id, call, hid, hcall, rfl⟩ := ledger.made n target k hn
  refine ⟨id, call, hid, hcall, ?_⟩
  unfold Cluster.reported
  split
  · rename_i hsnapshot
    exact absurd hsnapshot htarget
  · rfl

theorem Ledger.one_account (ledger : Ledger steps reports s)
    (hn : steps[n]? = some (.call target k)) (htarget : target ≠ .snapshot) :
    ∃! a, Stands steps reports n a := by
  obtain ⟨id, call, hid, hcall, hreported⟩ := ledger.reported_of_made hn htarget
  obtain ⟨a, ha⟩ := Option.isSome_iff_exists.mp (isSome_account s id call)
  refine ⟨a, (ledger.stands_iff hid hcall hreported).mpr ha, fun b hb => ?_⟩
  exact Option.some.inj (((ledger.stands_iff hid hcall hreported).mp hb).symm.trans ha)

theorem Ledger.told_once (ledger : Ledger steps reports s)
    (hn : steps[n]? = some (.call target k)) (htarget : target ≠ .snapshot) :
    (told steps reports n).length ≤ 1 := by
  obtain ⟨id, call, hid, hcall, hreported⟩ := ledger.reported_of_made hn htarget
  rw [(ledger.tells id n call hid hcall hreported).1]
  cases call.status with
  | ended o =>
    cases o with
    | void => exact Nat.zero_le 1
    | _ => exact Nat.le_refl 1
  | taken x => exact Nat.le_refl 1
  | _ => exact Nat.zero_le 1

/-! ## For good -/

/-- What has been told stays told, and who was given up stays given up. -/
theorem stands_append (hlength : before.length = early.length) (h : Stands early before n a)
    (hfinal : a.Final) : Stands (early ++ late) (before ++ behind) n a := by
  cases a with
  | ended o =>
    rw [Stands, told, List.zip_append hlength.symm, List.flatMap_append]
    exact List.mem_append_left _ h
  | cancelled =>
    obtain ⟨j, r, standing, hcancel, hr, hmem⟩ := h
    refine ⟨j, r, standing, ?_, ?_, hmem⟩
    · rw [List.getElem?_append_left (List.getElem?_eq_some_iff.mp hcancel).1, hcancel]
    · rw [List.getElem?_append_left (List.getElem?_eq_some_iff.mp hr).1, hr]
  | opened standing => cases hfinal

/-! ## Earned outcomes -/

theorem unspoiled_of_fresh {a : Status} (h : a.Fresh) : ¬ a.Spoiled := by
  cases a with
  | pending held slot =>
    obtain rfl : slot = .empty := h
    cases held <;> exact id
  | ended o => cases o <;> simp_all [Status.Fresh, Status.Spoiled]
  | taken x => exact id
  | cancelled => exact id

theorem unspoiled_of_follows {a b : Status} (h : a.Follows b) (ha : ¬ a.Spoiled) :
    ¬ b.Spoiled := by
  cases h with
  | same => exact ha
  | heard held slot unspent => cases held <;> cases slot <;> simp_all [Status.Spoiled]
  | ended held slot o earned =>
    cases o with
    | void =>
      obtain ⟨rfl, rfl⟩ := earned rfl
      exact absurd trivial ha
    | _ => exact id

theorem unspoiled_of_handled {a b : Status} (h : Handled st finding n a b) (ha : ¬ a.Spoiled)
    (careful : st = .wait n → a ≠ .pending true .spent) : ¬ b.Spoiled := by
  cases h with
  | left follows => exact unspoiled_of_follows follows ha
  | taken => exact id
  | noticed => exact id
  | awaited slot step =>
    cases slot with
    | spent => exact absurd rfl (careful step)
    | _ => exact id
  | cancelled => exact id

/-- In a careful step no call is spoiled before the actors move. -/
theorem unspoiled_of_effect (ledger : Ledger steps reports s) (careful : s.Careful st)
    (h : s.effect st = some (acted, finding))
    (hunspoiled : ∀ (id : Nat) (call : Call), s.cluster.calls[id]? = some call →
      ¬ call.status.Spoiled)
    (hcall : acted.calls[id]? = some call) : ¬ call.status.Spoiled := by
  by_cases hid : id < s.cluster.calls.length
  · have hid' : id < s.origins.length := ledger.length.symm ▸ hid
    have horigin : s.origins[id]? = some s.origins[id] := List.getElem?_eq_getElem hid'
    have hbefore : s.cluster.calls[id]? = some s.cluster.calls[id] := List.getElem?_eq_getElem hid
    obtain ⟨call', hcall', _, hhandled⟩ := treated_of_effect ledger.nodup h horigin hbefore
    obtain rfl := Option.some.inj (hcall.symm.trans hcall')
    refine unspoiled_of_handled hhandled (hunspoiled id _ hbefore) ?_
    rintro rfl hstatus
    apply careful
    simp only [Step.awaits, callOf_of_origin ledger.nodup horigin, hbefore, hstatus,
      Option.bind_eq_bind, Option.bind_some, Option.pure_def]
  · -- a call that the step has made
    have hlt := (List.getElem?_eq_some_iff.mp hcall).1
    rcases effect_cases ledger.nodup h with ⟨hlength, _, call', hcall', hmade⟩ | ⟨_, hlength, _⟩
    · obtain rfl : id = s.cluster.calls.length := by omega
      obtain rfl := Option.some.inj (hcall.symm.trans hcall')
      obtain ⟨_, _, hfresh⟩ | ⟨_, _, hfresh | hgone⟩ := hmade
      · exact unspoiled_of_fresh hfresh
      · exact unspoiled_of_fresh hfresh
      · rw [hgone]
        exact id
    · omega

theorem unspoiled_of_plays (h : Plays (start setup) 0 steps s reports)
    (hcall : s.cluster.calls[id]? = some call) : ¬ call.status.Spoiled := by
  induction h generalizing id call with
  | nil => cases hcall
  | snoc before careful turn ih =>
    obtain ⟨acted, finding, heffect, honward, _⟩ := turn_cases turn
    obtain ⟨call', hcall', hbecomes⟩ := honward.before hcall
    have hunspoiled := unspoiled_of_effect (ledger_of_plays before) careful heffect
      (fun id call hcall => ih hcall) hcall'
    exact unspoiled_of_follows hbecomes.follows hunspoiled

theorem not_void_of_plays (h : Plays (start setup) 0 steps s reports)
    (hcall : s.cluster.calls[id]? = some call) : call.status ≠ .ended .void := by
  intro hvoid
  have hunspoiled := unspoiled_of_plays h hcall
  rw [hvoid] at hunspoiled
  exact hunspoiled trivial

/-- What is told is no void outcome. -/
theorem void_notMem_told (status : Status) : .void ∉ status.told := by
  cases status with
  | ended o => cases o <;> simp [Status.told, Status.tells?]
  | taken a => simp [Status.told]
  | _ => simp [Status.told, Status.tells?]

theorem void_not_told (h : Plays (start setup) 0 steps s reports)
    (hn : steps[n]? = some (.call target k)) (htarget : target ≠ .snapshot) :
    .void ∉ told steps reports n := by
  have ledger := ledger_of_plays h
  obtain ⟨id, call, hid, hcall, hreported⟩ := ledger.reported_of_made hn htarget
  rw [(ledger.tells id n call hid hcall hreported).1]
  exact void_notMem_told call.status

theorem accounted (h : Plays (start setup) 0 steps s reports)
    (hn : steps[n]? = some (.call target k)) (htarget : target ≠ .snapshot) :
    Accounted steps reports n where
  one := (ledger_of_plays h).one_account hn htarget
  once := (ledger_of_plays h).told_once hn htarget
  earned := void_not_told h hn htarget

/-! ## The program's own order -/

/-- Some steps carried out with care as the program does it, the first of which is step `n`. -/
def carry (s : Session) (n : Nat) : List Step → Option (Session × List Report)
  | [] => some (s, [])
  | st :: rest =>
    if s.Careful st then do
      let (t, r) ← s.step n st
      let (u, reports) ← t.carry (n + 1) rest
      return (u, r :: reports)
    else none

/-- What the program does is a play. -/
theorem plays_of_carry (h : s.carry n steps = some (t, reports)) :
    Plays s n steps t reports ∧ s.run n steps = some reports := by
  induction steps generalizing s n reports with
  | nil =>
    obtain ⟨rfl, rfl⟩ := Prod.mk.inj (Option.some.inj h)
    exact ⟨.nil, rfl⟩
  | cons st rest ih =>
    rw [carry] at h
    split at h
    · rename_i hcareful
      obtain ⟨⟨u, r⟩, hstep, h⟩ := Option.bind_eq_some_iff.mp h
      obtain ⟨⟨last, later⟩, hlater, h⟩ := Option.bind_eq_some_iff.mp h
      obtain ⟨rfl, rfl⟩ := Prod.mk.inj (Option.some.inj h)
      obtain ⟨hplays, hrun⟩ := ih hlater
      have hfirst : Plays s n [st] u [r] := Plays.nil.snoc hcareful (turn_of_step hstep)
      refine ⟨hfirst.append hplays, ?_⟩
      rw [run, hstep]
      simp [hrun]
    · cases h

/-! ## In hand -/

/-- What happens to the cluster in a play could happen to it without one. -/
theorem reaches_of_plays (h : Plays (start setup) 0 steps s reports) :
    (start setup).cluster.Reaches s.cluster := by
  induction h with
  | nil => exact .refl _
  | snoc before _ turn ih =>
    refine ih.trans (reaches_of_turn turn fun c hvoid => ?_)
    obtain ⟨call, hcall, hstatus⟩ := Cluster.ended?_eq_some.mp hvoid
    exact not_void_of_plays before hcall hstatus

theorem onRecord_of_plays (h : Plays (start setup) 0 steps s reports) : s.cluster.OnRecord := by
  obtain ⟨labels, es, hrun⟩ := reaches_of_plays h
  exact Cluster.onRecord_run (Cluster.onRecord_start setup) hrun

theorem unheard_of_plays (h : Plays (start setup) 0 steps s reports) {slot : Slot Answer}
    (hcall : s.cluster.calls[id]? = some call) (hstatus : call.status = .pending false slot) :
    slot = .empty ∧ s.cluster.InHand id call := by
  obtain rfl := (ledger_of_plays h).rest id call slot hcall hstatus
  exact ⟨rfl, (onRecord_of_plays h).inHand hcall ⟨false, hstatus⟩⟩

/-- A play may be stopped after any step. Each call made so far stands in one way then, and whoever
has ended or was given up stands like that in all that follows. No call is void, and one that is
waited for and has not ended has no reply yet, and somebody has the sending end. -/
theorem every_call_in_one_state (h : Plays (start setup) 0 (early ++ late) s reports) :
    ∃ t before behind, reports = before ++ behind ∧
      Plays (start setup) 0 early t before ∧ Plays t early.length late s behind ∧
      (∀ n target k, early[n]? = some (.call target k) → target ≠ .snapshot →
        Accounted early before n ∧ ∀ a, Stands early before n a → a.Final →
          ∀ b, Stands (early ++ late) reports n b ↔ b = a) ∧
      ∀ (id : Nat) (call : Call), t.cluster.calls[id]? = some call →
        call.status ≠ .ended .void ∧ ∀ slot, call.status = .pending false slot →
          slot = .empty ∧ t.cluster.InHand id call := by
  obtain ⟨t, before, behind, hbefore, hbehind, rfl⟩ := h.split
  rw [Nat.zero_add] at hbehind
  refine ⟨t, before, behind, rfl, hbefore, hbehind, ?_,
    fun id call hcall => ⟨not_void_of_plays hbefore hcall,
      fun slot hstatus => unheard_of_plays hbefore hcall hstatus⟩⟩
  intro n target k hn htarget
  refine ⟨accounted hbefore hn htarget, fun a ha hfinal b => ?_⟩
  have hn' : (early ++ late)[n]? = some (.call target k) := by
    rw [List.getElem?_append_left (List.getElem?_eq_some_iff.mp hn).1, hn]
  have hstill : Stands (early ++ late) (before ++ behind) n a :=
    stands_append hbefore.counted ha hfinal
  constructor
  · intro hb
    exact (accounted h hn' htarget).one.unique hb hstill
  · rintro rfl
    exact hstill

/-- Client `b` holds a read of "k", which client `a` owns, until `a` hands "k" over. It takes the
reply, and a caller of the store is parked on "k" behind it and goes away. -/
def givenUpSteps : List Step :=
  [.call (.client 0 .get .attached) "k", .call (.client 1 .get (.dispatched true)) "k",
    .call (.client 0 (.put 3) .attached) "k", .take 1, .call (.store .read) "k", .cancel 4]

/-- Client `a` is killed while it is parked on "k" itself, and its caller waits for the reply. -/
def killedSteps : List Step :=
  [.call (.client 0 .get (.dispatched true)) "k", .killClient 0, .wait 6]

/-- The reply that was taken stays told, and the call that was given up stays given up. -/
theorem every_call_in_one_state_of_script : ∃ s reports,
    Plays (start ⟨[⟨"a", 1⟩, ⟨"b", 1⟩], 1⟩) 0 (givenUpSteps ++ killedSteps) s reports ∧
      (∀ a, Stands (givenUpSteps ++ killedSteps) reports 1 a ↔
        a = .ended (.answered (.client (.fetched 3)))) ∧
      (∀ a, Stands (givenUpSteps ++ killedSteps) reports 4 a ↔ a = .cancelled) := by
  obtain ⟨s, reports, hcarry, htold, r, hr, hopen⟩ : ∃ s reports,
      (start ⟨[⟨"a", 1⟩, ⟨"b", 1⟩], 1⟩).carry 0 (givenUpSteps ++ killedSteps) =
        some (s, reports) ∧
      told givenUpSteps (reports.take 6) 1 = [.answered (.client (.fetched 3))] ∧
      ∃ r, (reports.take 6)[4]? = some r ∧ (4, .waiting) ∈ r.opened :=
    ⟨_, _, rfl, rfl, _, rfl, List.mem_singleton.mpr rfl⟩
  have hplays := (plays_of_carry hcarry).1
  obtain ⟨t, before, behind, rfl, hbefore, _, hcalls, _⟩ := every_call_in_one_state hplays
  have hlength : before.length = 6 := hbefore.counted
  rw [List.take_left' hlength] at htold hr
  refine ⟨s, before ++ behind, hplays, ?_, ?_⟩
  · refine (hcalls 1 _ _ rfl nofun).2 _ ?_ trivial
    rw [Stands, htold]
    exact List.mem_singleton.mpr rfl
  · exact (hcalls 4 _ _ rfl nofun).2 _ ⟨4, r, .waiting, rfl, hr, hopen⟩ trivial

end Session

end Custody
