import Custody.Json.Basic
import Custody.Store.Snapshot

/-!
# JSON forms of replies and snapshots

How each is written as a JSON value, and read back from one; the order of the members of a
record does not matter to a reader. A client reply without an error text has no `err` member.
-/

namespace Custody

namespace Json

def member? (name : String) : Json → Option Json
  | record members => members.lookup name
  | _ => none

def bool? : Json → Option Bool
  | bool b => some b
  | _ => none

def text? : Json → Option String
  | text s => some s
  | _ => none

def value? : Json → Option Value
  | int i =>
    if Int64.minValue.toInt ≤ i ∧ i ≤ Int64.maxValue.toInt then some (.ofInt i) else none
  | _ => none

def list? : Json → Option (List Json)
  | list items => some items
  | _ => none

def record? : Json → Option (List (String × Json))
  | record members => some members
  | _ => none

end Json

def Value.json (v : Value) : Json := .int v.toInt

namespace StoreReply

def json (r : StoreReply) : Json := .record [("value", Value.json r.value), ("ok", .bool r.ok)]

def ofJson? (j : Json) : Option StoreReply := do
  return ⟨← (← j.member? "value").value?, ← (← j.member? "ok").bool?⟩

end StoreReply

namespace ClientReply

def json (r : ClientReply) : Json :=
  .record <|
    [("value", Value.json r.value), ("hit", .bool r.hit), ("ok", .bool r.ok)] ++
      r.err.toList.map fun e => ("err", .text e)

def ofJson? (j : Json) : Option ClientReply := do
  let err ← match j.member? "err" with
    | some e => some <$> e.text?
    | none => some none
  return ⟨← (← j.member? "value").value?, ← (← j.member? "hit").bool?,
    ← (← j.member? "ok").bool?, err⟩

end ClientReply

namespace Snapshot

def json (s : Snapshot) : Json :=
  .record
    [("values", .record (s.values.map fun kv => (kv.1, Value.json kv.2))),
      ("owned", .list (s.owned.map .text)),
      ("waiting", .list (s.waiting.map .text))]

def ofJson? (j : Json) : Option Snapshot := do
  let values ← (← (← j.member? "values").record?).mapM fun (k, v) => do return (k, ← v.value?)
  let owned ← (← (← j.member? "owned").list?).mapM Json.text?
  let waiting ← (← (← j.member? "waiting").list?).mapM Json.text?
  return ⟨values, owned, waiting⟩

end Snapshot

end Custody
