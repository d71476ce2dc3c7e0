import Custody.Program

/-!
# Command line entry
-/

open Custody

def main (args : List String) : IO UInt32 := do
  let report := Program.run args
  let out ← IO.getStdout
  for line in report.lines do
    out.putStrLn line
  out.flush
  return report.exitCode.toUInt32
