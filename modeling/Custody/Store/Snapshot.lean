import Custody.Store.Basic

/-!
# Snapshots

A snapshot shows the values, the owned keys and the keys somebody waits for, each in ascending
order of keys. It does not show who waits.
-/

namespace Custody

structure Snapshot where
  values : List (Key × Value)
  owned : List Key
  waiting : List Key
  deriving DecidableEq, Repr

namespace Snapshot

def empty : Snapshot := ⟨[], [], []⟩

end Snapshot

/-- What comes of asking a store for a snapshot. -/
inductive Sight where
  | shown (s : Snapshot)
  | failed (f : Fault)
  deriving DecidableEq, Repr

def Store.snapshot {ρ : Type} (s : Store ρ) : Snapshot where
  values := s.values.toList
  owned := s.owned.toList
  waiting := s.waiters.keys

end Custody
