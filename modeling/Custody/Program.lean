import Custody.CommandLine.Arguments
import Custody.Walkthrough

/-!
# The program

Runs the walkthrough that the command line asks for and prints its lines, as text between a
start and an end marker or as one JSON object a line. The text of the help is left out.
-/

namespace Custody

open CommandLine

namespace Program

structure Report where
  exitCode : Nat
  lines : List String
  deriving DecidableEq, Repr

def version : String := "ownership_cache 0.1.0"

def startMarker : String := "=== Demo start ==="

def endMarker : String := "=== Demo end ==="

/-- The end marker shows only when the walkthrough came to its end. -/
def showText (w : Walkthrough) : List String :=
  startMarker :: w.lines.map (·.text) ++
    if w.ending = some .completed then [endMarker] else []

def showJson (w : Walkthrough) : List String := w.lines.map (·.json.render)

def perform (d : Demo) : Report :=
  let w := Walkthrough.perform d.first d.second d.depth none
  { exitCode := if w.ending = some .completed then 0 else 1
    lines := match d.format with
      | .text => showText w
      | .json => showJson w }

def run (args : List String) : Report :=
  match parse args with
  | .ok d => perform d
  | .error r =>
    { exitCode := r.exitCode
      lines := match r with
        | .versionShown => [version]
        | _ => [] }

end Program

end Custody
