import Custody.Proofs.Session.Beside

/-!
# A spawned store is its desk

Callers of a store can come and go in any order. Whatever they do, after each of their steps the
session shows what the desk shows after the same step, and a call ends in the step in which the desk
settles its ticket.
-/

namespace Custody

namespace Session

variable {setup : Setup} {d : Desk} {n : Nat} {s t : Session} {r : Report} {x : Raw}
  {raws : List Raw} {reports : List Report}

theorem Beside.raw (beside : Beside d n s) (h : Turn s n x.step t r) :
    Beside (d.next (x.deskStep? n)) (n + 1) t ∧ Matches d (x.deskStep? n) r := by
  cases x with
  | request op k => exact beside_request beside h
  | cancel m => exact beside_cancel beside h
  | dropSnapshot => exact beside_dropSnapshot beside h

/-! ## Each step is possible -/

/-- As long as the store's handle is there, it can be called, and anybody can go away. -/
theorem effect_raw (hhandle : s.cluster.keeper.handle = true) (x : Raw) :
    ∃ acted found, s.effect x.step = some (acted, found) := by
  cases x with
  | request op k =>
    cases hrunning : s.cluster.keeper.running <;>
      simp [Raw.step, effect, Cluster.call, hhandle, hrunning]
  | cancel m =>
    cases hm : s.callOf m <;> simp [Raw.step, effect, hm]
  | dropSnapshot =>
    cases hrunning : s.cluster.keeper.running <;>
      simp [Raw.step, effect, Cluster.call, hhandle, hrunning]

theorem exists_step (hhandle : s.cluster.keeper.handle = true) (n : Nat) (x : Raw) :
    ∃ t r, s.step n x.step = some (t, r) := by
  obtain ⟨acted, found, heffect⟩ := effect_raw hhandle x
  exact ⟨_, _, by rw [step, heffect]; rfl⟩

/-- None of the callers waits for a reply that it holds. -/
theorem careful_raw (s : Session) (x : Raw) : s.Careful x.step := by
  cases x <;> nofun

theorem Beside.exists_carry (beside : Beside d n s) (raws : List Raw) :
    ∃ t reports, s.carry n (raws.map Raw.step) = some (t, reports) := by
  induction raws generalizing d n s with
  | nil => exact ⟨s, [], rfl⟩
  | cons x rest ih =>
    obtain ⟨t, r, hstep⟩ := exists_step beside.calm.handle n x
    obtain ⟨last, reports, hrest⟩ := ih (beside.raw (turn_of_step hstep)).1
    refine ⟨last, r :: reports, ?_⟩
    rw [List.map_cons, carry, if_pos (careful_raw s x), hstep]
    simp [hrest]

/-! ## Each step is the same -/

/-- After any steps the session is where the desk is, and it was so in each of them. -/
theorem beside_of_plays (h : Plays (start setup) 0 (raws.map Raw.step) s reports) :
    Beside (deskAfter raws) raws.length s ∧ ∀ n x r, raws[n]? = some x → reports[n]? = some r →
      Matches (deskAfter (raws.take n)) (x.deskStep? n) r := by
  generalize hsteps : raws.map Raw.step = steps at h
  induction h generalizing raws with
  | nil =>
    obtain rfl := List.map_eq_nil_iff.mp hsteps
    exact ⟨beside_start setup, fun n x r hx => by cases hx⟩
  | @snoc steps reports t u st r before careful turn ih =>
    obtain ⟨early, tail, rfl, hearly, htail⟩ := List.map_eq_append_iff.mp hsteps
    obtain ⟨x, rfl, rfl⟩ := List.map_eq_singleton_iff.mp htail
    obtain ⟨beside, hmatches⟩ := ih hearly
    have hlength : steps.length = early.length := by rw [← hearly, List.length_map]
    rw [Nat.zero_add, hlength] at turn
    obtain ⟨beside', hlast⟩ := beside.raw turn
    have hcounted : reports.length = early.length := before.counted.trans hlength
    refine ⟨?_, fun n y q hy hq => ?_⟩
    · rw [deskAfter_snoc, List.length_append]
      exact beside'
    · rcases entry_snoc hy with hy | ⟨rfl, rfl⟩
      · have hlt := (List.getElem?_eq_some_iff.mp hy).1
        rw [List.getElem?_append_left (hcounted ▸ hlt)] at hq
        rw [List.take_append_of_le_length (Nat.le_of_lt hlt)]
        exact hmatches n y q hy hq
      · rw [← hcounted, List.getElem?_concat_length] at hq
        obtain rfl := Option.some.inj hq
        rw [List.take_left]
        exact hlast

/-- Callers of a store can do what they like, and however the actors move, each step shows the
desk: the same snapshot, and for each ticket that the desk settles the end of its call, with a reply
or without. The open calls are those that are parked at the desk and were not given up. -/
theorem spawned_store_is_the_desk (setup : Setup) (raws : List Raw) :
    (∃ s reports, Plays (start setup) 0 (raws.map Raw.step) s reports ∧
      Session.reports setup (raws.map Raw.step) = some reports) ∧
    ∀ s reports, Plays (start setup) 0 (raws.map Raw.step) s reports →
      reports.length = raws.length ∧
      ∀ n x r, raws[n]? = some x → reports[n]? = some r →
        Matches (deskAfter (raws.take n)) (x.deskStep? n) r ∧
        ∀ t standing, (t, standing) ∈ r.opened ↔ standing = .waiting ∧
          (∃ k, (deskAfter (raws.take (n + 1))).store.waiter k = some t) ∧
            ¬ Dropped (raws.take (n + 1)) t := by
  constructor
  · obtain ⟨s, reports, hcarry⟩ := (beside_start setup).exists_carry raws
    exact ⟨s, reports, plays_of_carry hcarry⟩
  · intro s reports h
    refine ⟨h.counted.trans (List.length_map _), fun n x r hx hr => ?_⟩
    have hmatches := (beside_of_plays h).2 n x r hx hr
    refine ⟨hmatches, fun t standing => ?_⟩
    have htake : raws.take (n + 1) = raws.take n ++ [x] := by
      rw [List.take_add_one, hx]
      rfl
    have hlength : (raws.take n).length = n :=
      List.length_take_of_le (Nat.le_of_lt (List.getElem?_eq_some_iff.mp hx).1)
    rw [hmatches.opened, ← isPresent_deskAfter, htake, deskAfter_snoc, hlength]

/-- The owner of "k" has it still when two others ask for it, and the later one takes the place of
the earlier; in between somebody has asked for a snapshot and gone away. -/
def displacedRaws : List Raw :=
  [.request .read "k", .request .read "k", .dropSnapshot, .request .read "k"]

/-- The reader that is displaced has its reply dropped in the last step, and the other one waits. -/
theorem spawned_store_is_the_desk_of_displaced : ∃ s reports r,
    Plays (start ⟨[], 0⟩) 0 (displacedRaws.map Raw.step) s reports ∧ reports[3]? = some r ∧
      (1, .failed (.failure .replyDropped)) ∈ r.ended ∧ (3, .waiting) ∈ r.opened := by
  obtain ⟨⟨s, reports, hplays, _⟩, hall⟩ := spawned_store_is_the_desk ⟨[], 0⟩ displacedRaws
  obtain ⟨hlength, hmatches⟩ := hall s reports hplays
  have hlt : 3 < reports.length := by
    rw [hlength]
    decide
  obtain ⟨hmatch, hopened⟩ := hmatches 3 _ _ rfl (List.getElem?_eq_getElem hlt)
  refine ⟨s, reports, _, hplays, List.getElem?_eq_getElem hlt, ?_, ?_⟩
  · exact (hmatch.ended _ _).mpr ⟨.discarded, List.mem_singleton.mpr rfl, rfl⟩
  · refine (hopened _ _).mpr ⟨rfl, ⟨"k", rfl⟩, ?_⟩
    rintro ⟨j, hlate, hj⟩
    have hearly : j < 4 := (List.getElem?_eq_some_iff.mp hj).1
    exact Nat.lt_irrefl j (Nat.lt_of_lt_of_le hearly hlate)

end Session

end Custody
