import Custody.Client.Cache

/-!
# Scripted stores

A store that does not keep anything and answers from a script. Each request that it receives uses
up one entry. It looks at its script when a message has arrived, and between the orders of its
client; where the script ends it stops listening. So a message that is sent before the first look
is accepted also where the script is empty, and never answered.
-/

namespace Custody

inductive Script.Entry where
  | reply (r : StoreReply)
  | drop
  | close
  deriving DecidableEq, Repr

structure Script where
  entries : List Script.Entry
  closed : Bool := false
  deriving DecidableEq, Repr

namespace Script

/-- Whether no entry is left to answer with. -/
def ends : List Entry → Bool
  | [] => true
  | .close :: _ => true
  | _ => false

def stop (s : Script) : Script := { s with closed := true }

/-- The store stops listening where its script ends. -/
def look (s : Script) : Script := if ends s.entries then s.stop else s

/-- Whether a request is received, and what is answered. -/
def request (s : Script) : Script × Bool × Option StoreReply :=
  if s.closed then (s, false, none)
  else match s.entries with
    | .reply r :: rest => ({ s with entries := rest }, true, some r)
    | .drop :: rest => ({ s with entries := rest }, true, none)
    | _ => (s.stop, false, none)

/-- A snapshot request is never answered, and the script ends with it. -/
def snapshot (s : Script) : Script × Fault :=
  (s.stop, if s.closed then .snapshotNotSent else .snapshotUnanswered)

end Script

end Custody
