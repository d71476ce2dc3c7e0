import Custody.Json.Forms
import Custody.Text.Quoted

/-!
# Trace lines

What one client did, or has seen done, in a walkthrough. A line has a text for people, in which
the client's name and the key stand as they are and the error text is quoted, and a JSON form.
A get that has to wait shows as two lines, one when it parks and one when it resumes.
-/

namespace Custody.Trace

inductive Step where
  | get (k : Key) (reply : ClientReply)
  | put (k : Key) (v : Value) (reply : ClientReply)
  | parked (k : Key)
  | resumed (k : Key) (reply : ClientReply)
  deriving DecidableEq, Repr

structure Line where
  client : String
  step : Step
  deriving DecidableEq, Repr

namespace Step

def key : Step → Key
  | get k _ => k
  | put k _ _ => k
  | parked k => k
  | resumed k _ => k

end Step

def writeOutcome (r : ClientReply) : List Char :=
  "ok=".toList ++ (toString r.ok).toList ++ " err=".toList ++ Text.quoted r.errText

def writeFetched (r : ClientReply) : List Char :=
  "value=".toList ++ Text.decimal r.value.toInt ++ ' ' :: writeOutcome r

def Step.write : Step → List Char
  | get k r => "get ".toList ++ k.toList ++ " -> ".toList ++ writeFetched r
  | put k v r =>
    "put ".toList ++ k.toList ++ '=' :: Text.decimal v.toInt ++ " -> ".toList ++ writeOutcome r
  | parked k => "get ".toList ++ k.toList ++ " (pending)".toList
  | resumed k r =>
    "pending get ".toList ++ k.toList ++ " reply -> ".toList ++ writeFetched r

def Line.text (l : Line) : String :=
  String.ofList ('[' :: l.client.toList ++ "] ".toList ++ l.step.write)

/-- The members of a step: its kind first, then what that kind shows. -/
def Step.members : Step → List (String × Json)
  | get k r => [("step", .text "get"), ("key", .text k), ("reply", r.json)]
  | put k v r =>
    [("step", .text "put"), ("key", .text k), ("value", Value.json v), ("reply", r.json)]
  | parked k => [("step", .text "parked"), ("key", .text k)]
  | resumed k r => [("step", .text "resumed"), ("key", .text k), ("reply", r.json)]

def Line.json (l : Line) : Json := .record (("client", .text l.client) :: l.step.members)

def Step.ofJson? (j : Json) : Option Step := do
  let k ← (← j.member? "key").text?
  let reply : Option ClientReply := (j.member? "reply").bind ClientReply.ofJson?
  match ← (← j.member? "step").text? with
  | "get" => return .get k (← reply)
  | "put" => return .put k (← (← j.member? "value").value?) (← reply)
  | "parked" => return .parked k
  | "resumed" => return .resumed k (← reply)
  | _ => none

def Line.ofJson? (j : Json) : Option Line := do
  return ⟨← (← j.member? "client").text?, ← Step.ofJson? j⟩

end Custody.Trace
