import Custody.Client.Cache
import Custody.Proofs.Store.Separation

/-!
# One key

A store of which only one key was ever used, and a cache that has only one key. What the store
decides about that key, and what a client does with it, is computed outright.
-/

namespace Custody

namespace Store

variable {ρ : Type}

/-- Only key `k` has a value, an owner or a waiter. -/
def single (k : Key) (v : Value) (owned : Bool) (waiter : Option ρ) : Store ρ where
  values := (∅ : Std.ExtTreeMap Key Value).insert k v
  owned := if owned then (∅ : Std.ExtTreeSet Key).insert k else ∅
  waiters := waiter.elim ∅ fun x => (∅ : Std.ExtTreeMap Key ρ).insert k x

variable {k key : Key} {u v : Value} {owned : Bool} {waiter : Option ρ} {x y : ρ}
  {present : ρ → Bool}

@[simp] theorem value_single :
    (single k v owned waiter).value key = if k = key then some v else none := by
  simp [single, value, Std.ExtTreeMap.getElem?_insert]

@[simp] theorem isOwned_single :
    (single k v owned waiter).isOwned key = if k = key then owned else false := by
  cases owned with
  | false => simp [single, isOwned]
  | true => simp only [single, isOwned, if_true, contains_insert_key, Std.ExtTreeSet.contains_empty]

@[simp] theorem waiter_single :
    (single k v owned waiter).waiter key = if k = key then waiter else none := by
  cases waiter with
  | none => simp [single, Store.waiter]
  | some x => simp [single, Store.waiter, Std.ExtTreeMap.getElem?_insert]

theorem mem_waiting_single : key ∈ (single k v owned waiter).snapshot.waiting ↔
    k = key ∧ waiter.isSome = true := by
  have hkeys : key ∈ (single k v owned waiter).snapshot.waiting ↔
      ((single k v owned waiter).waiter key).isSome = true := by
    rw [Store.snapshot, Std.ExtTreeMap.mem_keys, Store.waiter,
      Std.ExtTreeMap.isSome_getElem?_eq_contains, Std.ExtTreeMap.mem_iff_contains]
  rw [hkeys, waiter_single]
  split
  · rename_i hk
    simp [hk]
  · rename_i hk
    simp [hk]

/-- What a request for the one key makes of the store is read off the verdict. -/
theorem handle_single {s : Store ρ} {r : Request ρ} {verdict : Verdict ρ}
    (hvalue : ∀ key, r.key ≠ key → s.value key = none)
    (howned : ∀ key, r.key ≠ key → s.isOwned key = false)
    (hwaiter : ∀ key, r.key ≠ key → s.waiter key = none)
    (hverdict : (s.handle present r).2 = verdict)
    (hvalue' : (s.handle present r).1.value r.key = some v)
    (howned' : (s.handle present r).1.isOwned r.key = owned)
    (hwaiter' : (s.handle present r).1.waiter r.key = waiter) :
    s.handle present r = (single r.key v owned waiter, verdict) := by
  refine Prod.ext (ext_of_keys ?_ ?_ ?_) hverdict
  · intro key
    rw [value_single]
    split
    · rename_i hk
      rw [← hk, hvalue']
    · rename_i hk
      rw [value_handle]
      split <;> simp [hk, hvalue key hk]
  · intro key
    rw [isOwned_single]
    split
    · rename_i hk
      rw [← hk, howned']
    · rename_i hk
      rw [isOwned_handle]
      split <;> simp [hk, howned key hk]
  · intro key
    rw [waiter_single]
    split
    · rename_i hk
      rw [← hk, hwaiter']
    · rename_i hk
      rw [waiter_handle]
      split <;> simp [hk, hwaiter key hk]

theorem handle_of_single {op : Operation} {verdict : Verdict ρ} {owned' : Bool}
    {waiter' : Option ρ}
    (hverdict : ((single k v owned waiter).handle present ⟨op, k, x⟩).2 = verdict)
    (hvalue : ((single k v owned waiter).handle present ⟨op, k, x⟩).1.value k = some u)
    (howned : ((single k v owned waiter).handle present ⟨op, k, x⟩).1.isOwned k = owned')
    (hwaiter : ((single k v owned waiter).handle present ⟨op, k, x⟩).1.waiter k = waiter') :
    (single k v owned waiter).handle present ⟨op, k, x⟩ =
      (single k u owned' waiter', verdict) := by
  refine handle_single ?_ ?_ ?_ hverdict hvalue howned hwaiter
  all_goals
    intro key hk
    simp [hk]

/-- The first read ever grants 0. -/
theorem read_empty (present : ρ → Bool) (k : Key) (x : ρ) :
    ({} : Store ρ).handle present ⟨.read, k, x⟩ = (single k 0 true none, .granted 0) := by
  have hverdict : (({} : Store ρ).handle present ⟨.read, k, x⟩).2 = .granted 0 := by
    simp [verdict_read, isOwned, value]
  refine handle_single ?_ ?_ ?_ hverdict ?_ ?_ ?_
  · simp [value]
  · simp [isOwned]
  · simp [Store.waiter]
  · simp [value_handle, hverdict]
  · simp [isOwned_handle, hverdict]
  · rw [waiter_handle, hverdict]
    simp [Store.waiter]

theorem read_free (present : ρ → Bool) (k : Key) (v : Value) (x : ρ) :
    (single k v false none).handle present ⟨.read, k, x⟩ =
      (single k v true none, .granted v) := by
  have hverdict : ((single k v false none).handle present ⟨.read, k, x⟩).2 = .granted v := by
    simp [verdict_read]
  apply handle_of_single hverdict
  · simp [value_handle, hverdict]
  · simp [isOwned_handle, hverdict]
  · simp [waiter_handle, hverdict]

theorem read_owned (present : ρ → Bool) (k : Key) (v : Value) (x : ρ) :
    (single k v true none).handle present ⟨.read, k, x⟩ =
      (single k v true (some x), .parked none) := by
  have hverdict : ((single k v true none).handle present ⟨.read, k, x⟩).2 = .parked none := by
    simp [verdict_read]
  apply handle_of_single hverdict
  · simp [value_handle, hverdict]
  · simp [isOwned_handle, hverdict]
  · simp [waiter_handle, hverdict]

theorem write_owned (present : ρ → Bool) (k : Key) (u v : Value) (x : ρ) :
    (single k v true none).handle present ⟨.write u, k, x⟩ =
      (single k u false none, .accepted u .freed) := by
  have hverdict : ((single k v true none).handle present ⟨.write u, k, x⟩).2 =
      .accepted u .freed := by
    simp [verdict_write, handover]
  apply handle_of_single hverdict
  · simp [value_handle, hverdict]
  · simp [isOwned_handle, hverdict]
  · simp [waiter_handle, hverdict]

/-- The waiter gets the key together with the value written. -/
theorem write_awaited (k : Key) (u v : Value) (x : ρ) (hpresent : present y = true) :
    (single k v true (some y)).handle present ⟨.write u, k, x⟩ =
      (single k u true none, .accepted u (.passed y)) := by
  have hverdict : ((single k v true (some y)).handle present ⟨.write u, k, x⟩).2 =
      .accepted u (.passed y) := by
    simp [verdict_write, handover, hpresent]
  apply handle_of_single hverdict
  · simp [value_handle, hverdict]
  · simp [isOwned_handle, hverdict]
  · simp [waiter_handle, hverdict]

end Store

namespace Cache

variable {k : Key} {u v : Value}

def single (k : Key) (v : Value) : Cache := (∅ : Cache).insert k v

theorem get_of_empty (k : Key) : (∅ : Cache).start k .get = (∅, none) := by
  simp [start]

theorem get_of_single : (single k v).start k .get = (single k v, some (.cacheHit v)) := by
  simp [start, single]

theorem put_of_single : (single k v).start k (.put u) = (single k u, none) := by
  have hsame : ((∅ : Cache).insert k v).insert k u = (∅ : Cache).insert k u := by
    refine Std.ExtTreeMap.ext_getElem? fun key => ?_
    simp only [Std.ExtTreeMap.getElem?_insert]
    split <;> rfl
  simp [start, single, hsame]

theorem put_back : (single k u).finish k (.put u) (some (.granted v)) = (∅, .released) := by
  have hempty : ((∅ : Cache).insert k u).erase k = ∅ := by
    refine Std.ExtTreeMap.ext_getElem? fun key => ?_
    simp only [Std.ExtTreeMap.getElem?_erase, Std.ExtTreeMap.getElem?_insert,
      Std.ExtTreeMap.getElem?_empty]
    split <;> rfl
  simp [finish, single, StoreReply.granted, hempty]

end Cache

end Custody
