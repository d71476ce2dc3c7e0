import Custody.Proofs.Walkthrough.Progress

/-!
# How a walkthrough ends

Whichever of the parties moves first, a walkthrough comes to an end, and it shows the same lines in
the same order, up to the one that is refused. If none is refused, all actors have stopped by then.
-/

namespace Custody.Walkthrough

variable {first second : Value} {depth : Nat} {refused : Option Nat} {moves : List Move}
  {u v w : Walkthrough}

/-- The lines in front of the one that is refused. -/
def accepted (first second : Value) : Option Nat → List Trace.Line
  | none => expected first second
  | some n => (expected first second).take n

theorem Course.fire {m : Move} (course : Course first second depth refused w) (prompt : w.Prompt)
    (h : w.fire refused m = some v) : Course first second depth refused v := by
  cases m with
  | actor m => exact course.actor h
  | proceed =>
    obtain ⟨t, hproceed, course'⟩ | ⟨hwaits, _⟩ := course.onward prompt
    · obtain rfl := Option.some.inj (hproceed.symm.trans h)
      exact course'
    · cases hwaits.symm.trans h

theorem course_run
    (prompt : ∀ early late u, moves = early ++ late →
      (start first second depth).run refused early = some u → u.Prompt)
    (h : (start first second depth).run refused moves = some w) :
    Course first second depth refused w :=
  run_induction prompt (course_start first second depth refused)
    (fun _ _ _ prompt course hfire => course.fire prompt hfire) h

theorem take_expected {n : Nat} (hn : 7 ≤ n) :
    (expected first second).take n = expected first second :=
  List.take_of_length_le hn

/-- No line is shown that is not due, and none from the refused one on. -/
theorem Course.lines (course : Course first second depth refused w) :
    w.lines <+: accepted first second refused := by
  have hopen : ∀ {n}, Open refused n →
      (expected first second).take (shown n) <+: accepted first second refused := by
    intro n hopen
    cases refused with
    | none => exact List.take_prefix _ _
    | some m => exact List.take_prefix_take_left (hopen m rfl)
  cases course with
  | playing n s waiting launched time b shows stage h => exact hopen h
  | closing s launched time closing h => exact hopen h
  | closed s launched time closing stopped h => exact hopen h
  | completed s launched time closing stopped h => exact hopen h
  | refused n s launched time hn hrefused =>
    subst hrefused
    exact List.prefix_refl _

/-- After its end the walkthrough offers nothing. -/
theorem Course.proceed_of_ended (course : Course first second depth refused w)
    (hended : w.ending ≠ none) : w.proceed refused = none := by
  cases course with
  | playing => exact absurd rfl hended
  | closing => exact absurd rfl hended
  | closed => exact absurd rfl hended
  | completed => rfl
  | refused => rfl

theorem Course.finished (course : Course first second depth refused w) (prompt : w.Prompt)
    (hstuck : ∀ m, w.fire refused m = none) : Over first second refused w := by
  obtain ⟨v, hproceed, _⟩ | ⟨_, hover⟩ := course.onward prompt
  · cases hproceed.symm.trans (hstuck .proceed)
  · exact hover fun m => Option.map_eq_none_iff.mp (hstuck (.actor m))

theorem Over.lines_eq (finished : Over first second refused w) :
    w.lines = accepted first second refused := by
  obtain ⟨hlate, hlines, _⟩ | ⟨n, _, rfl, hlines, _⟩ := finished
  · rw [hlines]
    cases refused with
    | none => rfl
    | some n => exact (take_expected (hlate n rfl)).symm
  · exact hlines

/-- Every run comes to an end. The lines it shows are the expected ones in their order, up to the
one that is refused. If one of the seven is refused, that is how it ends, and nothing is offered any
more; else it completes, with all actors stopped. -/
theorem walkthrough_ends
    (prompt : ∀ early late u, moves = early ++ late →
      (start first second depth).run refused early = some u → u.Prompt)
    (h : (start first second depth).run refused moves = some w) :
    moves.length ≤ (start first second depth).load ∧
      w.lines <+: accepted first second refused ∧
      (w.ending ≠ none → w.proceed refused = none) ∧
      ((∀ m, w.fire refused m = none) →
        w.lines = accepted first second refused ∧
        ((∃ n < 7, refused = some n) → w.ending = some (.failed .lineRefused)) ∧
        ((∀ n, refused = some n → 7 ≤ n) →
          w.ending = some .completed ∧ w.allStopped = true)) := by
  have course := course_run prompt h
  refine ⟨?_, course.lines, course.proceed_of_ended, fun hstuck => ?_⟩
  · have timely : (start first second depth).Timely := Nat.zero_le _
    have hload := length_add_load_le timely h
    omega
  · have finished := course.finished (prompt moves [] w (List.append_nil _).symm h) hstuck
    refine ⟨finished.lines_eq, ?_, ?_⟩
    · rintro ⟨n, hn, rfl⟩
      obtain ⟨hlate, _⟩ | ⟨m, _, _, _, hending⟩ := finished
      · exact absurd (hlate n rfl) (Nat.not_le.mpr hn)
      · exact hending
    · intro hlate
      obtain ⟨_, _, hending, hstopped⟩ | ⟨n, hn, hrefused, _⟩ := finished
      · exact ⟨hending, hstopped⟩
      · exact absurd (hlate n hrefused) (Nat.not_le.mpr hn)

/-- The walkthrough looks once before the read has left the first client, and once more when it is
parked. -/
def rehearsal : List Move :=
  [.proceed, .actor (.begin 0), .actor .serve, .actor (.resume 0), .actor (.finish 0), .proceed,
    .proceed, .actor (.begin 0), .actor .serve, .actor (.resume 0), .actor (.finish 1), .proceed,
    .proceed, .actor (.begin 1), .actor .serve, .actor (.resume 1), .actor (.finish 2), .proceed,
    .proceed, .proceed, .proceed, .actor .serve, .actor (.finish 4), .proceed,
    .actor (.begin 0), .actor .serve, .proceed, .actor .serve, .actor (.finish 5), .proceed,
    .proceed, .actor (.begin 1), .actor (.finish 6), .proceed,
    .proceed, .actor (.begin 1), .actor .serve, .actor (.resume 1), .actor (.finish 7), .proceed,
    .proceed, .actor (.resume 0), .actor (.finish 3), .proceed,
    .proceed, .actor .serve, .actor (.finish 8), .proceed,
    .proceed, .actor (.leave 0), .actor (.leave 1), .actor .retire, .proceed, .proceed]

/-- Only the listed moves can be possible. -/
theorem stuck_of_moves (h : (w.moves.all fun m => (w.fire refused m).isNone) = true) (m : Move) :
    w.fire refused m = none := by
  rw [List.all_eq_true] at h
  cases hfire : w.fire refused m with
  | none => rfl
  | some v =>
    have hlisted : m ∈ w.moves := by
      cases m with
      | actor m =>
        obtain ⟨cluster, e, hm, _⟩ := fire_actor hfire
        exact List.mem_append_left _ (List.mem_map_of_mem (Cluster.mem_moves hm))
      | proceed => exact List.mem_append_right _ (List.mem_singleton.mpr rfl)
    cases hfire ▸ h m hlisted

theorem walkthrough_ends_after_rehearsal :
    ∃ w, (start Int64.minValue 7 0).run none rehearsal = some w ∧
      w.lines = expected Int64.minValue 7 ∧ w.ending = some .completed ∧ w.allStopped = true := by
  obtain ⟨w, h, hstuck⟩ : ∃ w, (start Int64.minValue 7 0).run none rehearsal = some w ∧
      (w.moves.all fun m => (w.fire none m).isNone) = true := ⟨_, rfl, rfl⟩
  have prompt : ∀ early late u, rehearsal = early ++ late →
      (start Int64.minValue 7 0).run none early = some u → u.Prompt := by
    intro early late u hsplit hearly hlate
    have htime := time_le_of_run hearly
    have hlength := congrArg List.length hsplit
    rw [List.length_append] at hlength
    have hrehearsal : rehearsal.length = 54 := rfl
    have hpatience : Parking.patience = 2000 := rfl
    have hstart : (start Int64.minValue 7 0).time = 0 := rfl
    omega
  obtain ⟨_, _, _, hends⟩ := walkthrough_ends prompt h
  obtain ⟨hlines, _, hcompleted⟩ := hends (stuck_of_moves hstuck)
  exact ⟨w, h, hlines, hcompleted (by simp)⟩

end Custody.Walkthrough
