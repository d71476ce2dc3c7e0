import Mathlib
import Custody.Parking

/-!
# What looks decide

A wait for a parked reader is over with the first look that shows one, that could not be had, or
that shows none when the time is up. A reader that is seen counts however late it is, and the time
is up only when nobody is seen then.
-/

namespace Custody

namespace Parking

variable {k : Key} {start : Nat} {look last : Look} {looks earlier : List Look} {r : Result}

/-- Nobody was parked on the key. -/
def Look.Lacks (k : Key) (look : Look) : Prop :=
  ∃ shot, look.sight = .shown shot ∧ k ∉ shot.waiting

/-- The look decides nothing. -/
def Look.Open (k : Key) (start : Nat) (look : Look) : Prop :=
  look.Lacks k ∧ look.time < start + patience

theorem judge_cases (k : Key) (start : Nat) (look : Look) :
    (∃ f, look.sight = .failed f ∧ judge k start look = some (.failed f)) ∨
      (∃ shot, look.sight = .shown shot ∧ k ∈ shot.waiting ∧
        judge k start look = some .parked) ∨
      (look.Lacks k ∧ start + patience ≤ look.time ∧
        judge k start look = some (.failed (.parkTimedOut k))) ∨
      (look.Open k start ∧ judge k start look = none) := by
  obtain ⟨sight, time⟩ := look
  cases sight with
  | failed f => exact Or.inl ⟨f, rfl, rfl⟩
  | shown shot =>
    by_cases hparked : k ∈ shot.waiting
    · exact Or.inr (Or.inl ⟨shot, rfl, hparked, by simp [judge, hparked]⟩)
    · have hlacks : Look.Lacks k ⟨.shown shot, time⟩ := ⟨shot, rfl, hparked⟩
      by_cases hlate : start + patience ≤ time
      · exact Or.inr (Or.inr (Or.inl ⟨hlacks, hlate, by simp [judge, hparked, hlate]⟩))
      · exact Or.inr (Or.inr (Or.inr
          ⟨⟨hlacks, Nat.lt_of_not_le hlate⟩, by simp [judge, hparked, hlate]⟩))

theorem judge_of_open (h : look.Open k start) : judge k start look = none := by
  obtain ⟨⟨shot, hshot, hparked⟩, hearly⟩ := h
  simp [judge, hshot, hparked, Nat.not_le_of_lt hearly]

theorem open_of_judge (h : judge k start look = none) : look.Open k start := by
  obtain ⟨_, _, hsome⟩ | ⟨_, _, _, hsome⟩ | ⟨_, _, hsome⟩ | ⟨hopen, _⟩ := judge_cases k start look
  · cases hsome.symm.trans h
  · cases hsome.symm.trans h
  · cases hsome.symm.trans h
  · exact hopen

/-- What a wait for a reader of `k` has come to by its looks: it is over with the last of them, and
nothing was decided before. -/
structure Concludes (k : Key) (start : Nat) (looks : List Look) (r : Result) : Prop where
  watched : watch k start looks = some r
  parked : r = .parked ↔ ∃ earlier last shot, looks = earlier ++ [last] ∧
    last.sight = .shown shot ∧ k ∈ shot.waiting
  timedOut : r = .failed (.parkTimedOut k) ↔ (∀ look ∈ looks, look.Lacks k) ∧
    ∃ earlier last, looks = earlier ++ [last] ∧ start + patience ≤ last.time
  otherwise : r ≠ .parked → r ≠ .failed (.parkTimedOut k) → ∃ earlier last f,
    looks = earlier ++ [last] ∧ last.sight = .failed f ∧ r = .failed f ∧
      ∀ look ∈ earlier, ∃ shot, look.sight = .shown shot

/-- The error of a snapshot request is not the one of a wait that is given up. -/
theorem concludes_of_last (hopen : ∀ look ∈ earlier, look.Open k start)
    (hlast : judge k start last = some r) (hfault : last.sight ≠ .failed (.parkTimedOut k)) :
    Concludes k start (earlier ++ [last]) r := by
  have hlooks : ∀ {early : List Look} {look : Look}, earlier ++ [last] = early ++ [look] →
      early = earlier ∧ look = last := by
    intro early look h
    obtain ⟨hearly, hlook⟩ := List.append_inj' h rfl
    exact ⟨hearly.symm, (List.singleton_inj.mp hlook).symm⟩
  have hall : ∀ {look : Look}, look ∈ earlier ++ [last] → look.Open k start ∨ look = last := by
    intro look hmem
    rcases List.mem_append.mp hmem with hmem | hmem
    · exact Or.inl (hopen look hmem)
    · exact Or.inr (List.mem_singleton.mp hmem)
  have hwatched : watch k start (earlier ++ [last]) = some r := by
    have hnone : earlier.findSome? (judge k start) = none :=
      List.findSome?_eq_none_iff.mpr fun look hlook => judge_of_open (hopen look hlook)
    rw [watch, List.findSome?_append, hnone, Option.none_or, List.findSome?_singleton, hlast]
  have hshown : ∀ look ∈ earlier, ∃ shot, look.sight = .shown shot := by
    intro look hlook
    obtain ⟨⟨shot, hshot, _⟩, _⟩ := hopen look hlook
    exact ⟨shot, hshot⟩
  obtain ⟨f, hsight, hjudge⟩ | ⟨shot, hsight, hparked, hjudge⟩ | ⟨hlacks, hlate, hjudge⟩ |
    ⟨_, hjudge⟩ := judge_cases k start last
  · obtain rfl := Option.some.inj (hlast.symm.trans hjudge)
    refine ⟨hwatched, ⟨nofun, ?_⟩, ⟨?_, ?_⟩,
      fun _ _ => ⟨earlier, last, f, rfl, hsight, rfl, hshown⟩⟩
    · rintro ⟨early, look, shot, heq, hshot, _⟩
      obtain ⟨rfl, rfl⟩ := hlooks heq
      cases hsight.symm.trans hshot
    · intro hf
      obtain rfl := Result.failed.inj hf
      exact absurd hsight hfault
    · rintro ⟨hlacks, _⟩
      obtain ⟨shot, hshot, _⟩ := hlacks last (by simp)
      cases hsight.symm.trans hshot
  · obtain rfl := Option.some.inj (hlast.symm.trans hjudge)
    refine ⟨hwatched, ⟨fun _ => ⟨earlier, last, shot, rfl, hsight, hparked⟩, fun _ => rfl⟩,
      ⟨nofun, ?_⟩, fun hne => absurd rfl hne⟩
    rintro ⟨hlacks, _⟩
    obtain ⟨shot', hshot', habsent⟩ := hlacks last (by simp)
    obtain rfl := Sight.shown.inj (hsight.symm.trans hshot')
    exact absurd hparked habsent
  · obtain rfl := Option.some.inj (hlast.symm.trans hjudge)
    refine ⟨hwatched, ⟨nofun, ?_⟩, ⟨fun _ => ⟨fun look hlook => ?_, earlier, last, rfl, hlate⟩,
      fun _ => rfl⟩, fun _ hne => absurd rfl hne⟩
    · rintro ⟨early, look, shot, heq, hshot, hparked⟩
      obtain ⟨rfl, rfl⟩ := hlooks heq
      obtain ⟨shot', hshot', habsent⟩ := hlacks
      obtain rfl := Sight.shown.inj (hshot.symm.trans hshot')
      exact absurd hparked habsent
    · rcases hall hlook with hopen' | rfl
      · exact hopen'.1
      · exact hlacks
  · cases hlast.symm.trans hjudge

end Parking

end Custody
