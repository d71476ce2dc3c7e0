import Mathlib
import Custody.Client.Cache

/-!
# The two halves of an action

A client asks the store only for a key that it has not cached and wants to read, or has cached and
wants to write. What it does without the store leaves its cache alone; what it does with the
store's answer touches one key.
-/

namespace Custody

namespace Cache

variable {cache after : Cache} {k : Key} {a : Action}

theorem contains_eq (cache : Cache) (k : Key) : cache.contains k = cache[k]?.isSome := by
  simp

theorem start_asks (h : cache.start k a = (after, none)) :
    (a = .get ∧ cache[k]? = none ∧ after = cache) ∨
      ∃ v, a = .put v ∧ cache[k]?.isSome ∧ after = cache.insert k v := by
  cases a with
  | get =>
    obtain ⟨rfl, hmiss⟩ := Prod.mk.inj h
    exact Or.inl ⟨rfl, Option.map_eq_none_iff.mp hmiss, rfl⟩
  | put v =>
    simp only [start, contains_eq] at h
    split at h
    · rename_i hcached
      exact Or.inr ⟨v, rfl, hcached, (Prod.mk.inj h).1.symm⟩
    · cases h
  | unsupported name => cases h

theorem start_settles {r : ClientReply} (h : cache.start k a = (after, some r)) :
    after = cache ∧ ((a = .get ∧ ∃ v, cache[k]? = some v ∧ r = .cacheHit v) ∨
      (∃ v, a = .put v ∧ cache[k]? = none ∧ r = .failed .localCacheMiss) ∨
      ∃ name, a = .unsupported name ∧ r = .failed (.unknownAction name)) := by
  cases a with
  | get =>
    obtain ⟨rfl, hhit⟩ := Prod.mk.inj h
    obtain ⟨v, hv, rfl⟩ := Option.map_eq_some_iff.mp hhit
    exact ⟨rfl, Or.inl ⟨rfl, v, hv, rfl⟩⟩
  | put v =>
    simp only [start, contains_eq] at h
    split at h
    · cases h
    · rename_i hmiss
      obtain ⟨rfl, hr⟩ := Prod.mk.inj h
      exact ⟨rfl, Or.inr (Or.inl ⟨v, rfl, by simpa using hmiss, (Option.some.inj hr).symm⟩)⟩
  | unsupported name =>
    obtain ⟨rfl, hr⟩ := Prod.mk.inj h
    exact ⟨rfl, Or.inr (Or.inr ⟨name, rfl, (Option.some.inj hr).symm⟩)⟩

theorem finish_cases {answer : Option StoreReply} {r : ClientReply}
    (h : cache.finish k a answer = (after, r)) :
    (a = .get ∧ ∃ v, answer = some ⟨v, true⟩ ∧ after = cache.insert k v ∧ r = .fetched v) ∨
      ((∃ v, a = .put v) ∧ (∃ u, answer = some ⟨u, true⟩) ∧ after = cache.erase k ∧
        r = .released) ∨
      (after = cache ∧ r.ok = false ∧
        ((a = .get ∨ ∃ v, a = .put v) → ∀ u, answer ≠ some ⟨u, true⟩)) := by
  unfold finish at h
  split at h
  · obtain ⟨rfl, rfl⟩ := Prod.mk.inj h
    exact Or.inl ⟨rfl, _, rfl, rfl, rfl⟩
  · rename_i hanswer
    obtain ⟨rfl, rfl⟩ := Prod.mk.inj h
    exact Or.inr (Or.inr ⟨rfl, rfl, fun _ u hu => hanswer u hu⟩)
  · obtain ⟨rfl, rfl⟩ := Prod.mk.inj h
    exact Or.inr (Or.inl ⟨⟨_, rfl⟩, ⟨_, rfl⟩, rfl, rfl⟩)
  · rename_i hanswer
    obtain ⟨rfl, rfl⟩ := Prod.mk.inj h
    exact Or.inr (Or.inr ⟨rfl, rfl, fun _ u hu => hanswer u hu⟩)
  · obtain ⟨rfl, rfl⟩ := Prod.mk.inj h
    exact Or.inr (Or.inr ⟨rfl, rfl, by simp⟩)

theorem getElem?_insert_key (cache : Cache) (key k : Key) (v : Value) :
    (cache.insert key v)[k]? = if key = k then some v else cache[k]? := by
  simp [Std.ExtTreeMap.getElem?_insert]

theorem getElem?_erase_key (cache : Cache) (key k : Key) :
    (cache.erase key)[k]? = if key = k then none else cache[k]? := by
  simp [Std.ExtTreeMap.getElem?_erase]

end Cache

end Custody
