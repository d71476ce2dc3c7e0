import Std.Data.ExtTreeMap
import Std.Data.ExtTreeSet
import Custody.Reply

/-!
# The store

One store holds the value of every key, which keys are owned, and at most one waiter per key.
A read of a free key takes ownership; a read of an owned key is parked in the key's slot, where
it takes the place of an earlier waiter. A write publishes its value and hands ownership to the
waiter, or frees the key when nobody is there to take it.

Ownership is a flag: the store never learns who the owner is, so any write to a key releases
it. `ρ` is whatever identifies a requester; `present` tells which requesters can still be
reached, and the store looks at it only when it hands a key over.
-/

namespace Custody

inductive Operation where
  | read
  | write (v : Value)
  | unsupported (name : String)
  deriving DecidableEq, Repr

structure Request (ρ : Type) where
  op : Operation
  key : Key
  who : ρ
  deriving DecidableEq, Repr

/-- What becomes of a key that an accepted write releases. -/
inductive Handover (ρ : Type) where
  | freed
  | passed (next : ρ)
  | vanished (next : ρ)
  deriving DecidableEq, Repr

/-- What the store decides about one request. -/
inductive Verdict (ρ : Type) where
  | granted (v : Value)
  | parked (displaced : Option ρ)
  | accepted (v : Value) (next : Handover ρ)
  | refused
  deriving DecidableEq, Repr

/-- How a request ends for the one who made it. -/
inductive Fate where
  | answered (r : StoreReply)
  | discarded
  deriving DecidableEq, Repr

structure Store (ρ : Type) where
  values : Std.ExtTreeMap Key Value := ∅
  owned : Std.ExtTreeSet Key := ∅
  waiters : Std.ExtTreeMap Key ρ := ∅
  deriving DecidableEq

namespace Verdict

variable {ρ : Type}

/-- The fates a verdict on a request of `who` settles, the requester's own before the waiter's. -/
def fates (who : ρ) : Verdict ρ → List (ρ × Fate)
  | granted v => [(who, .answered (.granted v))]
  | parked none => []
  | parked (some earlier) => [(earlier, .discarded)]
  | accepted v (.passed next) =>
    [(who, .answered (.granted v)), (next, .answered (.granted v))]
  | accepted v _ => [(who, .answered (.granted v))]
  | refused => [(who, .answered .rejected)]

/-- What the requester hears at once; nothing if it is parked. -/
def reply? : Verdict ρ → Option StoreReply
  | granted v => some (.granted v)
  | parked _ => none
  | accepted v _ => some (.granted v)
  | refused => some .rejected

end Verdict

namespace Store

variable {ρ : Type}

def value (s : Store ρ) (k : Key) : Option Value := s.values[k]?

def isOwned (s : Store ρ) (k : Key) : Bool := s.owned.contains k

def waiter (s : Store ρ) (k : Key) : Option ρ := s.waiters[k]?

def hasWaiter (s : Store ρ) (k : Key) : Bool := s.waiters.contains k

/-- A key that was never read holds 0. -/
def read (s : Store ρ) (k : Key) (who : ρ) : Store ρ × Verdict ρ :=
  if s.isOwned k then
    ({ s with waiters := s.waiters.insert k who }, .parked (s.waiter k))
  else
    let v := (s.value k).getD 0
    ({ s with values := s.values.insert k v, owned := s.owned.insert k }, .granted v)

/-- Only a key that was read before can be written. -/
def write (present : ρ → Bool) (s : Store ρ) (k : Key) (v : Value) : Store ρ × Verdict ρ :=
  if s.values.contains k then
    let values := s.values.insert k v
    match s.waiter k with
    | none => ({ s with values, owned := s.owned.erase k }, .accepted v .freed)
    | some next =>
      let waiters := s.waiters.erase k
      if present next then
        (⟨values, s.owned.insert k, waiters⟩, .accepted v (.passed next))
      else
        (⟨values, s.owned.erase k, waiters⟩, .accepted v (.vanished next))
  else (s, .refused)

def handle (present : ρ → Bool) (s : Store ρ) (r : Request ρ) : Store ρ × Verdict ρ :=
  match r.op with
  | .read => s.read r.key r.who
  | .write v => s.write present r.key v
  | .unsupported _ => (s, .refused)

end Store

end Custody
