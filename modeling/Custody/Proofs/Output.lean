import Custody.Proofs.CommandLine.Refusals
import Custody.Proofs.Json.Forms
import Custody.Proofs.Walkthrough.Swift
import Custody.Program

/-!
# What is printed

From the arguments to the last line. Arguments that make no command print nothing; those that do
print the lines of the walkthrough, and the two formats tell the same story whatever depths the
queues have.
-/

namespace Custody.Program

open CommandLine Walkthrough

/-- The most places that the queue of an actor can have. -/
def greatestDepth : Nat := 2 ^ 61 - 1

/-- What is printed when the walkthrough comes out as `w`. -/
def report (format : Format) (w : Walkthrough) : Report where
  exitCode := if w.ending = some .completed then 0 else 1
  lines := match format with
    | .text => showText w
    | .json => showJson w

def printed : Format → List Trace.Line → List String
  | .text, lines => startMarker :: lines.map (·.text) ++ [endMarker]
  | .json, lines => lines.map (·.json.render)

variable {first second : Value} {format : Format} {w : Walkthrough} {args other : List String}
  {d d' : Demo} {r : Refusal} {i : Nat} {line : String}

theorem report_of_over (finished : Over first second none w) :
    report format w = ⟨0, printed format (expected first second)⟩ := by
  obtain ⟨_, hlines, hending, _⟩ | ⟨n, _, hrefused, _⟩ := finished
  · cases format with
    | text => simp [report, printed, showText, hlines, hending]
    | json => simp [report, printed, showJson, hlines, hending]
  · cases hrefused

theorem run_of_parse (hparse : parse args = .ok d) :
    run args = ⟨0, printed d.format (expected d.first d.second)⟩ := by
  rw [run, hparse]
  exact report_of_over (over_perform d.first d.second d.depth none)

/-- A walkthrough that is run in any other order prints the same. -/
theorem report_of_run {depth : Nat} {moves : List Walkthrough.Move}
    (prompt : ∀ early late u, moves = early ++ late →
      (start first second depth).run none early = some u → u.Prompt)
    (h : (start first second depth).run none moves = some w)
    (hstuck : ∀ m, w.fire none m = none) :
    report format w = ⟨0, printed format (expected first second)⟩ :=
  report_of_over ((course_run prompt h).finished
    (prompt moves [] w (List.append_nil _).symm h) hstuck)

/-- A line of the one format is the same line as its neighbour of the other. -/
theorem text_of_json {lines : List Trace.Line} (h : (printed .json lines)[i]? = some line) :
    ∃ l, (Json.parse? line).bind Trace.Line.ofJson? = some l ∧
      (printed .text lines)[i + 1]? = some l.text := by
  obtain ⟨l, hl, rfl⟩ := List.getElem?_map ▸ h |> Option.map_eq_some_iff.mp
  refine ⟨l, ?_, ?_⟩
  · rw [Json.parse?_render, Option.bind_some, Trace.Line.ofJson?_json]
  · have hi : i < lines.length := (List.getElem?_eq_some_iff.mp hl).1
    rw [printed, List.cons_append, List.getElem?_cons_succ,
      List.getElem?_append_left (by simpa using hi), List.getElem?_map, hl]
    rfl

theorem run_of_refused (hparse : parse args = .error r) (hhelp : r ≠ .helpShown) :
    run args = if r = .versionShown then ⟨0, [version]⟩ else ⟨2, []⟩ := by
  rw [run, hparse]
  cases r with
  | helpShown => exact absurd rfl hhelp
  | _ => rfl

/-- Whatever the arguments, unless they ask for help. If they make a command that actors can be
spawned for, the seven lines of the walkthrough are printed, the same ones in whatever order the
parties move, and each line of the JSON output can be decoded to the one that stands in its place in
the text output for the same two numbers. If they make none, nothing is printed, and the exit code
tells, unless the version is asked for. -/
theorem output_agrees (args : List String) (hhelp : parse args ≠ .error .helpShown) :
    (∀ d, parse args = .ok d → d.depth ≤ greatestDepth →
      run args = ⟨0, printed d.format (expected d.first d.second)⟩ ∧
      (expected d.first d.second).length = 7 ∧
      (∀ moves w, (∀ early late u, moves = early ++ late →
          (start d.first d.second d.depth).run none early = some u → u.Prompt) →
        (start d.first d.second d.depth).run none moves = some w →
        (∀ m, w.fire none m = none) → run args = report d.format w) ∧
      ∀ other d', parse other = .ok d' → d'.depth ≤ greatestDepth → d'.first = d.first →
        d'.second = d.second → d.format = .json → d'.format = .text →
        ∀ i line, (run args).lines[i]? = some line →
          ∃ l, (Json.parse? line).bind Trace.Line.ofJson? = some l ∧
            (run other).lines[i + 1]? = some l.text) ∧
    ∀ r, parse args = .error r →
      (AsksVersion args → run args = ⟨0, [version]⟩) ∧
        (¬ AsksVersion args → run args = ⟨2, []⟩) := by
  refine ⟨fun d hparse _ => ⟨run_of_parse hparse, rfl, fun moves w prompt h hstuck => ?_,
    fun other d' hparse' _ hfirst hsecond hjson htext i line hline => ?_⟩, fun r hparse => ?_⟩
  · rw [run_of_parse hparse, report_of_run prompt h hstuck]
  · rw [run_of_parse hparse, hjson] at hline
    rw [run_of_parse hparse', htext, hfirst, hsecond]
    exact text_of_json hline
  · have hrun := run_of_refused hparse fun hr => hhelp (hr ▸ hparse)
    have hversion : r = .versionShown ↔ AsksVersion args := by
      rw [← parse_eq_versionShown, hparse, Except.error.injEq]
    exact ⟨fun hasks => hrun.trans (if_pos (hversion.mpr hasks)),
      fun hasks => hrun.trans (if_neg fun hr => hasks (hversion.mp hr))⟩

/-- A run that is too short for the deadline to pass. -/
theorem prompt_of_length {first second : Value} {depth : Nat} {moves : List Walkthrough.Move}
    (hshort : moves.length < Parking.patience) :
    ∀ early late u, moves = early ++ late →
      (start first second depth).run none early = some u → u.Prompt := by
  intro early late u hsplit hearly hlate
  have htime := time_le_of_run hearly
  have hlength := congrArg List.length hsplit
  have hstart : (start first second depth).time = 0 := rfl
  rw [List.length_append] at hlength
  omega

/-- The smallest number and the smallest depth, for programs and for people. -/
theorem output_of_smallest :
    ∃ w, (start Int64.minValue 7 0).run none rehearsal = some w ∧
      run ["demo", "-9223372036854775808", "--queue-depth=0", "7", "--format", "json"] =
        report .json w ∧
      (∃ l, (Json.parse? (⟨"client1", .parked "alpha"⟩ : Trace.Line).json.render).bind
          Trace.Line.ofJson? = some l ∧
        (run ["demo", "--queue-depth", "9", "-9223372036854775808", "7"]).lines[4]? =
          some l.text) ∧
      run ["--version"] = ⟨0, [version]⟩ ∧ run ["demo", "7"] = ⟨2, []⟩ := by
  obtain ⟨w, h, hstuck⟩ : ∃ w, (start Int64.minValue 7 0).run none rehearsal = some w ∧
      (w.moves.all fun m => (w.fire none m).isNone) = true := ⟨_, rfl, rfl⟩
  obtain ⟨houtput, _⟩ := output_agrees
    ["demo", "-9223372036854775808", "--queue-depth=0", "7", "--format", "json"]
    (fun h => by cases h)
  obtain ⟨hlines, _, hruns, htext⟩ :=
    houtput ⟨Int64.minValue, 7, .json, 0⟩ rfl (Nat.zero_le _)
  refine ⟨w, h, hruns rehearsal w (prompt_of_length (by decide)) h (stuck_of_moves hstuck),
    htext _ ⟨Int64.minValue, 7, .text, 9⟩ rfl (by decide) rfl rfl rfl rfl 3 _ ?_, ?_, ?_⟩
  · rw [hlines]
    rfl
  · exact ((output_agrees ["--version"] (fun h => by cases h)).2 _ rfl).1 (.inl rfl)
  · refine ((output_agrees ["demo", "7"] (fun h => by cases h)).2 .missingArgument rfl).2 ?_
    rintro (h | ⟨cs, h⟩)
    · exact absurd h (by decide)
    · cases h

end Custody.Program
