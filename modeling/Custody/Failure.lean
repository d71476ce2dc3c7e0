/-!
# The ways a call can fail

A `Failure` names the reason a single get, put, read or write came to nothing. Each is final
for its call: nothing is retried. A `Fault` is what a caller may meet around such a call, when
the reply itself, a snapshot or a parked reader never arrives.
-/

namespace Custody

inductive Failure where
  | readFailed
  | writeToMissingKey
  | localCacheMiss
  | unknownAction (name : String)
  | unknownOperation (name : String)
  | replyDropped
  | storeUnavailable
  | clientUnavailable (name : String)
  deriving DecidableEq, Repr

namespace Failure

def message : Failure → String
  | readFailed => "kv read failed"
  | writeToMissingKey => "kv write failed (key missing in store)"
  | localCacheMiss => "key not in local cache"
  | unknownAction _ => "unknown action"
  | unknownOperation name => "unknown store operation '" ++ name ++ "'"
  | replyDropped => "store dropped the request without replying"
  | storeUnavailable => "store is no longer running"
  | clientUnavailable name => "client '" ++ name ++ "' is no longer running"

end Failure

inductive Fault where
  | failure (cause : Failure)
  | clientDropped (name key : String)
  | parkTimedOut (key : String)
  | snapshotNotSent
  | snapshotUnanswered
  | lineRefused
  deriving DecidableEq, Repr

namespace Fault

def message : Fault → String
  | failure cause => cause.message
  | clientDropped name key => "client '" ++ name ++ "' dropped reply for '" ++ key ++ "'"
  | parkTimedOut key => "timed out waiting for a reader to park on '" ++ key ++ "'"
  | snapshotNotSent => "failed to send snapshot request"
  | snapshotUnanswered => "snapshot response channel closed"
  | lineRefused => "emit failed"

end Fault

end Custody
