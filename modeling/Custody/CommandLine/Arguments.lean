import Custody.CommandLine.Token
import Custody.Reply
import Custody.Setup
import Custody.Text.Decimal

/-!
# The command line

The one command is `demo`, with two numbers and, anywhere around them, `--format` and
`--queue-depth`. An option's value is attached to it or is the next argument. The text of a
number or of a value is looked at only when the next number or option comes, or at the end, so
an argument that is not known is refused before an earlier one that makes no sense.
-/

namespace Custody.CommandLine

inductive Format where
  | text
  | json
  deriving DecidableEq, Repr

structure Demo where
  first : Value
  second : Value
  format : Format := .text
  depth : Nat := defaultDepth
  deriving DecidableEq, Repr

/-- Why no command comes out. The first two are what the user asked for. -/
inductive Refusal where
  | helpShown
  | versionShown
  | nothingGiven
  | unknownArgument
  | invalidSubcommand
  | invalidValue
  | malformedNumber
  | missingArgument
  | repeatedOption
  | tooManyValues
  deriving DecidableEq, Repr

def Refusal.exitCode : Refusal → Nat
  | helpShown | versionShown => 0
  | _ => 2

inductive Place where
  | first
  | second
  | format
  | depth
  deriving DecidableEq, Repr

def Place.ofName? (name : List Char) : Option Place :=
  if name = "format".toList then some format
  else if name = "queue-depth".toList then some depth
  else none

/-- The arguments so far. The last one is pending: its text, or the text still to come, has not
been looked at. -/
structure Progress where
  first : Option Value := none
  second : Option Value := none
  format : Option Format := none
  depth : Option Nat := none
  pending : Option (Place × Option String) := none
  numbers : Nat := 0
  escaped : Bool := false
  deriving DecidableEq, Repr

def readValue (s : String) : Except Refusal Value :=
  match Text.readInt s.toList with
  | some i =>
    if Int64.minValue.toInt ≤ i ∧ i ≤ Int64.maxValue.toInt then .ok (.ofInt i)
    else .error .malformedNumber
  | none => .error .malformedNumber

def readDepth (s : String) : Except Refusal Nat :=
  match Text.readNat s.toList with
  | some n => if n < UInt64.size then .ok n else .error .malformedNumber
  | none => .error .malformedNumber

def readFormat (s : String) : Except Refusal Format :=
  if s = "text" then .ok .text
  else if s = "json" then .ok .json
  else .error .invalidValue

namespace Progress

def store (p : Progress) (s : String) : Place → Except Refusal Progress
  | .first => do return { p with first := some (← readValue s) }
  | .second => do return { p with second := some (← readValue s) }
  | .format =>
    if p.format.isSome then .error .repeatedOption
    else do return { p with format := some (← readFormat s) }
  | .depth =>
    if p.depth.isSome then .error .repeatedOption
    else do return { p with depth := some (← readDepth s) }

/-- Looks at the pending argument. -/
def settle (p : Progress) : Except Refusal Progress :=
  match p.pending with
  | none => .ok p
  | some (_, none) => .error .invalidValue
  | some (place, some s) => { p with pending := none }.store s place

/-- One of the two numbers. -/
def number (p : Progress) (s : String) : Except Refusal Progress := do
  match p.numbers with
  | 0 => return { (← p.settle) with pending := some (.first, some s), numbers := 1 }
  | 1 => return { (← p.settle) with pending := some (.second, some s), numbers := 2 }
  | _ => .error .unknownArgument

/-- The value an option waits for, or else a number. -/
def word (p : Progress) (s : String) : Except Refusal Progress :=
  match p.pending with
  | some (place, none) => .ok { p with pending := some (place, some s) }
  | _ => p.number s

def long (p : Progress) (name : List Char) (attached : Option (List Char)) :
    Except Refusal Progress :=
  if name = "help".toList then
    match attached with
    | some _ => .error .tooManyValues
    | none => do
      let _ ← p.settle
      .error .helpShown
  else match Place.ofName? name, attached with
    | none, _ => .error .unknownArgument
    | some place, some v => do (← p.settle).store (String.ofList v) place
    | some place, none => do return { (← p.settle) with pending := some (place, none) }

def short (p : Progress) (letters : List Char) (s : String) : Except Refusal Progress :=
  if looksNumeric letters && p.numbers < 2 then p.word s
  else if letters.head? = some 'h' then do
    let _ ← p.settle
    .error .helpShown
  else .error .unknownArgument

def argument (p : Progress) (s : String) : Except Refusal Progress :=
  if p.escaped then p.number s
  else match Token.ofChars s.toList with
    | .escape => .ok { p with escaped := true }
    | .long name attached => p.long name attached
    | .short letters => p.short letters s
    | .word => p.word s

def finish (p : Progress) : Except Refusal Demo := do
  let p ← p.settle
  match p.first, p.second with
  | some first, some second =>
    return {
      first, second
      format := p.format.getD .text
      depth := p.depth.getD defaultDepth }
  | _, _ => .error .missingArgument

end Progress

def parseDemo (args : List String) : Except Refusal Demo := do
  (← args.foldlM Progress.argument {}).finish

/-- Help can be had on each command. -/
def askHelp : List String → Refusal
  | [] => .helpShown
  | [topic] => if topic = "demo" ∨ topic = "help" then .helpShown else .invalidSubcommand
  | _ => .invalidSubcommand

/-- What an argument in place of a command leads to, if it does not end the options. -/
def refuseTop : Token → Refusal
  | .escape => .nothingGiven
  | .long name none =>
    if name = "help".toList then .helpShown
    else if name = "version".toList then .versionShown
    else .unknownArgument
  | .long name (some _) =>
    if name = "help".toList ∨ name = "version".toList then .tooManyValues else .unknownArgument
  | .short letters =>
    if letters.head? = some 'h' then .helpShown
    else if letters.head? = some 'V' then .versionShown
    else .unknownArgument
  | .word => .invalidSubcommand

/-- No command can follow the end of the options. -/
def refuseEscaped : List String → Refusal
  | [] => .nothingGiven
  | s :: _ => if s = "demo" ∨ s = "help" then .unknownArgument else .invalidSubcommand

def parse : List String → Except Refusal Demo
  | [] => .error .nothingGiven
  | s :: rest =>
    if s = "demo" then parseDemo rest
    else if s = "help" then .error (askHelp rest)
    else match Token.ofChars s.toList with
      | .escape => .error (refuseEscaped rest)
      | t => .error (refuseTop t)

end Custody.CommandLine
