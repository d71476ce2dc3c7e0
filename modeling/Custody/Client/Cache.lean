import Custody.Store.Basic

/-!
# The client

A client keeps the keys it owns, with their values, in a cache of its own. A get of a cached key
never leaves the client; any other get asks the store for ownership. A put is allowed only for a
cached key and gives ownership back. An action has two halves: `start` settles it or leaves it
to the store, `finish` settles it once the store has been asked.
-/

namespace Custody

inductive Action where
  | get
  | put (v : Value)
  | unsupported (name : String)
  deriving DecidableEq, Repr

/-- What a client asks of the store when it cannot settle the action alone. -/
def Action.operation : Action → Operation
  | get => .read
  | put v => .write v
  | unsupported name => .unsupported name

abbrev Cache := Std.ExtTreeMap Key Value

namespace Cache

/-- No reply means that the store has to be asked. A put changes the cached value before it asks,
and a store that refuses it leaves it changed. -/
def start (cache : Cache) (k : Key) : Action → Cache × Option ClientReply
  | .get => (cache, cache[k]?.map .cacheHit)
  | .put v =>
    if cache.contains k then (cache.insert k v, none)
    else (cache, some (.failed .localCacheMiss))
  | .unsupported name => (cache, some (.failed (.unknownAction name)))

/-- No answer means that the store is gone or let the reply go. -/
def finish (cache : Cache) (k : Key) (a : Action) (answer : Option StoreReply) :
    Cache × ClientReply :=
  match a, answer with
  | .get, some ⟨v, true⟩ => (cache.insert k v, .fetched v)
  | .get, _ => (cache, .failed .readFailed)
  | .put _, some ⟨_, true⟩ => (cache.erase k, .released)
  | .put _, _ => (cache, .failed .writeToMissingKey)
  | .unsupported name, _ => (cache, .failed (.unknownAction name))

/-- A whole action, where `answer` is what the store would say; and what it was asked. -/
def perform (cache : Cache) (k : Key) (a : Action) (answer : Option StoreReply) :
    Cache × ClientReply × Option Operation :=
  match cache.start k a with
  | (after, some r) => (after, r, none)
  | (after, none) =>
    let (last, r) := after.finish k a answer
    (last, r, some a.operation)

end Cache

end Custody
