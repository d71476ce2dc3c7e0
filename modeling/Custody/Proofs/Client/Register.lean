import Custody.Proofs.Client.Halves
import Custody.Proofs.Store.Renaming
import Custody.Client.Bench

/-!
# A client with a store to itself

Such a client is a plain map of registers, some of which it holds. A get of any key finds its value,
and from then on the client holds it; a put is accepted for a key that is held, and gives it up.
Nothing ever waits: a key is owned only if it is held, and then a get does not ask for it.
-/

namespace Custody

/-- The values of all keys, and which keys are held. -/
structure Register where
  values : Key → Value := fun _ => 0
  held : Key → Bool := fun _ => false

namespace Register

def perform (m : Register) (k : Key) : Action → Register × ClientReply
  | .get => ({ m with held := Function.update m.held k true }, ⟨m.values k, m.held k, true, none⟩)
  | .put v =>
    if m.held k then
      (⟨Function.update m.values k v, Function.update m.held k false⟩, ⟨0, true, true, none⟩)
    else (m, ⟨0, false, false, some "key not in local cache"⟩)
  | .unsupported _ => (m, ⟨0, false, false, some "unknown action"⟩)

def run (m : Register) : List (Key × Action) → Register × List ClientReply
  | [] => (m, [])
  | (k, a) :: rest =>
    let (next, r) := m.perform k a
    let (last, replies) := next.run rest
    (last, r :: replies)

/-- The map after a get of `k`. -/
def take (m : Register) (k : Key) : Register := { m with held := Function.update m.held k true }

/-- The map after a put of `k` that is accepted. -/
def give (m : Register) (k : Key) (v : Value) : Register :=
  ⟨Function.update m.values k v, Function.update m.held k false⟩

variable {m : Register} {k : Key}

theorem perform_get : m.perform k .get = (m.take k, ⟨m.values k, m.held k, true, none⟩) := rfl

theorem perform_put_held (v : Value) (hheld : m.held k = true) :
    m.perform k (.put v) = (m.give k v, .released) := if_pos hheld

theorem perform_put_missing (v : Value) (hheld : m.held k = false) :
    m.perform k (.put v) = (m, .failed .localCacheMiss) := if_neg (by simp [hheld])

theorem take_of_held (hheld : m.held k = true) : m.take k = m := by
  obtain ⟨values, held⟩ := m
  exact congrArg (Register.mk values) (Function.update_eq_self_iff.mpr hheld.symm)

end Register

/-- One action after the other. -/
def Solo.run (s : Solo) : List (Key × Action) → Solo × List (Option ClientReply)
  | [] => (s, [])
  | (k, a) :: rest =>
    let (next, r) := s.perform k a
    let (last, replies) := next.run rest
    (last, r :: replies)

namespace Solo

/-- The client has in its cache what the map holds, the store has the values of the keys that were
read and owns those that are held, and nobody waits. -/
structure Tracks (s : Solo) (m : Register) (read : Key → Prop) : Prop where
  cached : ∀ k, s.cache[k]? = if m.held k then some (m.values k) else none
  owned : ∀ k, s.store.isOwned k = m.held k
  value : ∀ k, (s.store.value k).getD 0 = m.values k
  known : ∀ k, (s.store.value k).isSome ↔ read k
  taken : ∀ k, m.held k = true → read k
  free : ∀ k, s.store.waiter k = none

variable {s : Solo} {m : Register} {read : Key → Prop} {k key : Key} {a : Action}
  {after last : Cache} {answer : StoreReply} {r : ClientReply}

/-- What the store decides about the client's request. -/
abbrev decide (s : Solo) (k : Key) (a : Action) : Store Unit × Verdict Unit :=
  s.store.handle (fun _ => true) ⟨a.operation, k, ()⟩

theorem perform_settled (hstart : s.cache.start k a = (after, some r)) :
    s.perform k a = ({ s with cache := after }, some r) := by
  rw [perform, hstart]

theorem perform_asked (hstart : s.cache.start k a = (after, none))
    (hreply : (s.decide k a).2.reply? = some answer)
    (hfinish : after.finish k a (some answer) = (last, r)) :
    s.perform k a = (⟨last, (s.decide k a).1⟩, some r) := by
  rw [perform, hstart]
  simp only [hreply, hfinish]

theorem tracks_start : Tracks {} {} fun _ => False where
  cached k := by simp
  owned k := by simp [Store.isOwned]
  value k := by simp [Store.value]
  known k := by simp [Store.value]
  taken k := by simp
  free k := by simp [Store.waiter]

/-- The client asks for a key that nobody owns, or it writes a key that it owns. -/
theorem Tracks.decides (tracks : s.Tracks m read) (hstart : s.cache.start k a = (after, none)) :
    (a = .get ∧ m.held k = false ∧ after = s.cache ∧ (s.decide k a).2 = .granted (m.values k)) ∨
      ∃ v, a = .put v ∧ m.held k = true ∧ after = s.cache.insert k v ∧
        (s.decide k a).2 = .accepted v .freed := by
  have hcached := tracks.cached k
  obtain ⟨rfl, hmiss, rfl⟩ | ⟨v, rfl, hhit, rfl⟩ := Cache.start_asks hstart
  · have hheld : m.held k = false := by
      by_contra hheld
      simp [hmiss, hheld] at hcached
    refine Or.inl ⟨rfl, hheld, rfl, ?_⟩
    rw [Store.verdict_read rfl, if_neg (by simp [tracks.owned, hheld]), tracks.value]
  · have hheld : m.held k = true := by
      by_contra hheld
      simp [hcached, hheld] at hhit
    refine Or.inr ⟨v, rfl, hheld, rfl, ?_⟩
    rw [Store.verdict_write (v := v) rfl,
      if_pos ((tracks.known k).mpr (tracks.taken k hheld)), Store.handover, tracks.free]

/-- So it gets an answer at once. -/
theorem Tracks.answered (tracks : s.Tracks m read) (hstart : s.cache.start k a = (after, none)) :
    ∃ answer, (s.decide k a).2.reply? = some answer := by
  obtain ⟨_, _, _, hv⟩ | ⟨v, _, _, _, hv⟩ := tracks.decides hstart
  · exact ⟨_, by rw [hv]; rfl⟩
  · exact ⟨_, by rw [hv]; rfl⟩

theorem Tracks.fetch (tracks : s.Tracks m read)
    (hv : (s.decide k .get).2 = .granted (m.values k)) :
    Tracks ⟨s.cache.insert k (m.values k), (s.decide k .get).1⟩ (m.take k)
      fun key => read key ∨ key = k where
  cached key := by
    rw [Cache.getElem?_insert_key, tracks.cached]
    by_cases hkey : k = key
    · simp [Register.take, hkey]
    · simp [Register.take, hkey, Function.update_of_ne (Ne.symm hkey)]
  owned key := by
    rw [Store.isOwned_handle, hv]
    by_cases hkey : k = key
    · simp [Register.take, hkey]
    · simp [Register.take, hkey, Function.update_of_ne (Ne.symm hkey), tracks.owned]
  value key := by
    rw [Store.value_handle, hv]
    by_cases hkey : k = key
    · simp [Register.take, hkey]
    · simp [Register.take, hkey, tracks.value]
  known key := by
    rw [Store.value_handle, hv]
    by_cases hkey : k = key
    · simp [hkey]
    · simp [hkey, Ne.symm hkey, tracks.known]
  taken key hkey := by
    by_cases hk : key = k
    · exact Or.inr hk
    · have hbefore : m.held key = true := by simpa [Register.take, hk] using hkey
      exact Or.inl (tracks.taken key hbefore)
  free key := by
    rw [Store.waiter_handle, hv]
    exact tracks.free key

theorem Tracks.release {v : Value} (tracks : s.Tracks m read) (hheld : m.held k = true)
    (hv : (s.decide k (.put v)).2 = .accepted v .freed) :
    Tracks ⟨(s.cache.insert k v).erase k, (s.decide k (.put v)).1⟩ (m.give k v) read where
  cached key := by
    rw [Cache.getElem?_erase_key, Cache.getElem?_insert_key, tracks.cached]
    by_cases hkey : k = key
    · simp [Register.give, hkey]
    · simp [Register.give, hkey, Function.update_of_ne (Ne.symm hkey)]
  owned key := by
    rw [Store.isOwned_handle, hv]
    by_cases hkey : k = key
    · simp [Register.give, hkey]
    · simp [Register.give, hkey, Function.update_of_ne (Ne.symm hkey), tracks.owned]
  value key := by
    rw [Store.value_handle, hv]
    by_cases hkey : k = key
    · simp [Register.give, hkey]
    · simp [Register.give, hkey, Function.update_of_ne (Ne.symm hkey), tracks.value]
  known key := by
    rw [Store.value_handle, hv]
    by_cases hkey : k = key
    · subst hkey
      simp [tracks.taken k hheld]
    · simp [hkey, tracks.known]
  taken key hkey := by
    by_cases hk : key = k
    · exact hk ▸ tracks.taken k hheld
    · exact tracks.taken key (by simpa [Register.give, hk] using hkey)
  free key := by
    rw [Store.waiter_handle, hv]
    simp [tracks.free]

/-- A get of a key that is held reads nothing new. -/
theorem Tracks.hit (tracks : s.Tracks m read) (hheld : m.held k = true) :
    s.Tracks (m.take k) fun key => read key ∨ key = k := by
  rw [Register.take_of_held hheld]
  refine { tracks with known := fun key => ?_, taken := fun key hkey => Or.inl ?_ }
  · rw [tracks.known]
    refine ⟨Or.inl, ?_⟩
    rintro (hkey | rfl)
    · exact hkey
    · exact tracks.taken key hheld
  · exact tracks.taken key hkey

/-- The client replies as the map does, without ever waiting. -/
theorem tracks_perform (tracks : s.Tracks m read) (k : Key) (a : Action) :
    (s.perform k a).2 = some (m.perform k a).2 ∧
      (s.perform k a).1.Tracks (m.perform k a).1 fun key => read key ∨ (a = .get ∧ key = k) := by
  have hcached := tracks.cached k
  cases hstart : s.cache.start k a with
  | mk after reply =>
    cases reply with
    | some r =>
      rw [perform_settled hstart]
      obtain ⟨rfl, ⟨rfl, v, hhit, rfl⟩ | ⟨v, rfl, hmiss, rfl⟩ | ⟨name, rfl, rfl⟩⟩ :=
        Cache.start_settles hstart
      · have hheld : m.held k = true := by
          by_contra hheld
          simp [hhit, hheld] at hcached
        rw [hhit, if_pos hheld] at hcached
        rw [Register.perform_get, hheld]
        exact ⟨by rw [Option.some.inj hcached]; rfl, by simpa using tracks.hit hheld⟩
      · have hheld : m.held k = false := by
          by_contra hheld
          simp [hmiss, hheld] at hcached
        rw [Register.perform_put_missing v hheld]
        exact ⟨rfl, by simpa using tracks⟩
      · exact ⟨rfl, by simpa [Register.perform] using tracks⟩
    | none =>
      obtain ⟨rfl, hheld, rfl, hv⟩ | ⟨v, rfl, hheld, rfl, hv⟩ := tracks.decides hstart
      · have hdone : s.perform k .get = (⟨s.cache.insert k (m.values k), (s.decide k .get).1⟩,
            some (.fetched (m.values k))) := perform_asked hstart (by rw [hv]; rfl) rfl
        rw [hdone, Register.perform_get, hheld]
        exact ⟨rfl, by simpa using tracks.fetch hv⟩
      · have hdone : s.perform k (.put v) = (⟨(s.cache.insert k v).erase k,
            (s.decide k (.put v)).1⟩, some .released) := perform_asked hstart (by rw [hv]; rfl) rfl
        rw [hdone, Register.perform_put_held v hheld]
        exact ⟨rfl, by simpa using tracks.release hheld hv⟩

theorem run_snoc (s : Solo) (actions : List (Key × Action)) (k : Key) (a : Action) :
    s.run (actions ++ [(k, a)]) =
      (((s.run actions).1.perform k a).1,
        (s.run actions).2 ++ [((s.run actions).1.perform k a).2]) := by
  induction actions generalizing s with
  | nil => rfl
  | cons x rest ih =>
    obtain ⟨key, b⟩ := x
    simp only [List.cons_append, run, ih]

theorem tracks_run (tracks : s.Tracks m read) (actions : List (Key × Action)) :
    (s.run actions).2 = (m.run actions).2.map some ∧
      (s.run actions).1.Tracks (m.run actions).1 fun key => read key ∨ (key, .get) ∈ actions := by
  induction actions generalizing s m read with
  | nil => exact ⟨rfl, by simpa [run, Register.run] using tracks⟩
  | cons x rest ih =>
    obtain ⟨k, a⟩ := x
    obtain ⟨hreply, hnext⟩ := tracks_perform tracks k a
    obtain ⟨hreplies, hlast⟩ := ih hnext
    rw [run, Register.run]
    refine ⟨?_, ?_⟩
    · simp only [hreply, hreplies, List.map_cons]
    · have hread : ∀ key, ((read key ∨ (a = .get ∧ key = k)) ∨ (key, Action.get) ∈ rest) =
          (read key ∨ (key, Action.get) ∈ (k, a) :: rest) := by
        intro key
        simp only [List.mem_cons, Prod.mk.injEq, or_assoc, eq_comm, and_comm]
      simp only [← hread]
      exact hlast

/-- From the start, what was read is what is known. -/
theorem tracks_all (actions : List (Key × Action)) :
    (run {} actions).2 = (Register.run {} actions).2.map some ∧
      (run {} actions).1.Tracks (Register.run {} actions).1 fun key => (key, .get) ∈ actions := by
  obtain ⟨hreplies, htracks⟩ := tracks_run tracks_start actions
  exact ⟨hreplies, by simpa using htracks⟩

end Solo

end Custody
