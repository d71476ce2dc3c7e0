import Custody.Client.Script
import Custody.Store.Snapshot

/-!
# A client on the bench

One client, used directly, in front of a store that serves nobody else: a real one, or one with a
script. The client runs each action to its end before the next.
-/

namespace Custody

/-- A client with a real store to itself. -/
structure Solo where
  cache : Cache := ∅
  store : Store Unit := {}
  deriving DecidableEq

/-- No reply means that the action waits for a write that nobody is left to make. -/
def Solo.perform (s : Solo) (k : Key) (a : Action) : Solo × Option ClientReply :=
  match s.cache.start k a with
  | (cache, some r) => ({ s with cache }, some r)
  | (cache, none) =>
    let (store, verdict) := s.store.handle (fun _ => true) ⟨a.operation, k, ()⟩
    match verdict.reply? with
    | some answer =>
      let (cache, r) := cache.finish k a (some answer)
      (⟨cache, store⟩, some r)
    | none => (⟨cache, store⟩, none)

/-- A client in front of a script. -/
structure Scripted where
  cache : Cache := ∅
  script : Script
  deriving DecidableEq

/-- The reply, and the requests the script received. -/
def Scripted.perform (s : Scripted) (k : Key) (a : Action) :
    Scripted × ClientReply × List (Operation × Key) :=
  let (script, received, answer) := s.script.request
  match s.cache.perform k a answer with
  | (cache, r, some op) => (⟨cache, script⟩, r, if received then [(op, k)] else [])
  | (cache, r, none) => ({ s with cache }, r, [])

namespace Bench

inductive Order where
  | perform (k : Key) (a : Action)
  | cached (k : Key)
  | snapshot
  deriving DecidableEq, Repr

/-- What shows of the store's side after an order: its contents, or what a script received. -/
inductive Side where
  | store (s : Snapshot)
  | received (rs : List (Operation × Key))
  deriving DecidableEq, Repr

inductive Report where
  | acted (cached : Option Value) (reply : Option ClientReply) (side : Side)
  | looked (s : Sight)
  deriving DecidableEq, Repr

def solo (s : Solo) : Order → Solo × Report
  | .perform k a =>
    let (s, r) := s.perform k a
    (s, .acted s.cache[k]? r (.store s.store.snapshot))
  | .cached k => (s, .acted s.cache[k]? none (.store s.store.snapshot))
  | .snapshot => (s, .looked (.shown s.store.snapshot))

def scriptedOrder (s : Scripted) : Order → Scripted × Report
  | .perform k a =>
    let (s, r, rs) := s.perform k a
    (s, .acted s.cache[k]? (some r) (.received rs))
  | .cached k => (s, .acted s.cache[k]? none (.received []))
  | .snapshot =>
    let (script, f) := s.script.snapshot
    ({ s with script }, .looked (.failed f))

/-- After each order the store looks at its script. -/
def scripted (s : Scripted) (o : Order) : Scripted × Report :=
  let (s, r) := scriptedOrder s o
  ({ s with script := s.script.look }, r)

def reports {σ : Type} (serve : σ → Order → σ × Report) (s : σ) : List Order → List Report
  | [] => []
  | o :: rest =>
    let (s, r) := serve s o
    r :: reports serve s rest

end Bench

end Custody
