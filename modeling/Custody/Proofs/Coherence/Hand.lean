import Custody.Proofs.Client.Halves
import Custody.Proofs.Scene.Basic

/-!
# What a client holds

A client holds a key that it has cached, until its own put of the key has been accepted, and a key
that it was granted and has not looked at yet. It shows the value that comes with the key, except
while a put of its own is under way: then the cached value is already the new one.
-/

namespace Custody

/-- A job in hand agrees with the cache, and a put in hand was never turned down. -/
def Work.Fits (w : Work) (cache : Cache) : Prop :=
  match w.job.action with
  | .get => cache[w.job.key]? = none
  | .put v => cache[w.job.key]? = some v ∧ (w.answer = .empty ∨ ∃ u, w.answer = .full ⟨u, true⟩)
  | .unsupported _ => False

namespace Hand

/-- What the client has asked for and heard nothing of. -/
def Awaits (h : Hand) (a : Action) (k : Key) : Prop := ∃ c, h.work = some ⟨⟨c, a, k⟩, .empty⟩

def Putting (h : Hand) (k : Key) : Prop := ∃ c v slot, h.work = some ⟨⟨c, .put v, k⟩, slot⟩

/-- The client's own put of `k` has been accepted, and the client has not looked at the reply. -/
def Released (h : Hand) (k : Key) : Prop :=
  ∃ c v u, h.work = some ⟨⟨c, .put v, k⟩, .full ⟨u, true⟩⟩

/-- The client was granted `k`, and it has not looked at the reply. -/
def Promised (h : Hand) (k : Key) (v : Value) : Prop :=
  ∃ c, h.work = some ⟨⟨c, .get, k⟩, .full ⟨v, true⟩⟩

def Holds (h : Hand) (k : Key) : Prop :=
  ((∃ v, h.cache[k]? = some v) ∧ ¬ h.Released k) ∨ ∃ v, h.Promised k v

def Shows (h : Hand) (k : Key) (v : Value) : Prop :=
  (h.cache[k]? = some v ∧ ¬ h.Putting k) ∨ h.Promised k v

def Sound (h : Hand) : Prop := ∀ w, h.work = some w → w.Fits h.cache

variable {h h' : Hand} {k key : Key} {v : Value}

theorem Released.putting (hr : h.Released k) : h.Putting k := by
  obtain ⟨c, v, u, hwork⟩ := hr
  exact ⟨c, v, _, hwork⟩

theorem Shows.holds (hs : h.Shows k v) : h.Holds k := by
  rcases hs with ⟨hcache, hput⟩ | hpromised
  · exact Or.inl ⟨⟨v, hcache⟩, fun hr => hput hr.putting⟩
  · exact Or.inr ⟨v, hpromised⟩

@[simp] theorem hear_none (h : Hand) : h.hear none = h := by
  obtain ⟨cache, work⟩ := h
  cases work <;> rfl

theorem hear_of_waiting {job : Job} (hwork : h.work = some ⟨job, .empty⟩) (f : Fate) :
    h.hear (some f) = ⟨h.cache, some ⟨job, f.news⟩⟩ := by
  rw [hear, hwork]
  rfl

/-- Whatever a client holds from now on, it held before, and shows as before. -/
structure Within (h' h : Hand) : Prop where
  holds : ∀ k, h'.Holds k → h.Holds k
  shows : ∀ k v, h'.Shows k v → h.Shows k v

theorem not_putting_of_idle (hidle : h.work = none) : ¬ h.Putting k := by
  rintro ⟨c, v, slot, hwork⟩
  rw [hidle] at hwork
  cases hwork

theorem not_promised_of_idle (hidle : h.work = none) : ¬ h.Promised k v := by
  rintro ⟨c, hwork⟩
  rw [hidle] at hwork
  cases hwork

theorem holds_of_unanswered (hopen : ∀ job u, h.work ≠ some ⟨job, .full u⟩) :
    h.Holds k ↔ ∃ v, h.cache[k]? = some v := by
  constructor
  · rintro (⟨hcache, _⟩ | ⟨v, c, hwork⟩)
    · exact hcache
    · exact absurd hwork (hopen _ _)
  · intro hcache
    refine Or.inl ⟨hcache, ?_⟩
    rintro ⟨c, v, u, hwork⟩
    exact hopen _ _ hwork

theorem holds_of_idle (hidle : h.work = none) : h.Holds k ↔ ∃ v, h.cache[k]? = some v :=
  holds_of_unanswered (by simp [hidle])

theorem shows_of_idle (hidle : h.work = none) : h.Shows k v ↔ h.cache[k]? = some v := by
  constructor
  · rintro (⟨hcache, _⟩ | hpromised)
    · exact hcache
    · exact absurd hpromised (not_promised_of_idle hidle)
  · exact fun hcache => Or.inl ⟨hcache, not_putting_of_idle hidle⟩

theorem not_putting_of_get {c : Nat} {slot : Slot StoreReply}
    (hwork : h.work = some ⟨⟨c, .get, key⟩, slot⟩) : ¬ h.Putting k := by
  rintro ⟨c', v, slot', hput⟩
  rw [hwork] at hput
  cases hput

theorem key_of_putting {c : Nat} {slot : Slot StoreReply}
    (hwork : h.work = some ⟨⟨c, .put v, key⟩, slot⟩) (hk : h.Putting k) : key = k := by
  obtain ⟨c', v', slot', hput⟩ := hk
  rw [hwork] at hput
  cases hput
  rfl

/-- As long as the cache stays as it is, a client that is not putting `k` can get hold of it only
by a promise. -/
theorem within_of_cache (hcache : h'.cache = h.cache) (hput : ¬ h.Putting k)
    (hpromised : ∀ v, ¬ h'.Promised k v) :
    (h'.Holds k → h.Holds k) ∧ ∀ v, h'.Shows k v → h.Shows k v := by
  constructor
  · rintro (⟨hcached, _⟩ | ⟨v, hp⟩)
    · exact Or.inl ⟨hcache ▸ hcached, fun hr => hput hr.putting⟩
    · exact absurd hp (hpromised v)
  · rintro v (⟨hcached, _⟩ | hp)
    · exact Or.inl ⟨hcache ▸ hcached, hput⟩
    · exact absurd hp (hpromised v)

theorem within_of_idle {cache : Cache} (hshows : ∀ k v, cache[k]? = some v → h.Shows k v) :
    Within ⟨cache, none⟩ h where
  holds k hk := by
    obtain ⟨v, hcache⟩ := (holds_of_idle rfl).mp hk
    exact (hshows k v hcache).holds
  shows k v hk := hshows k v ((shows_of_idle rfl).mp hk)

/-- A client does not hold what it waits for. -/
theorem not_holds_of_awaits (sound : h.Sound) (hawaits : h.Awaits .get k) : ¬ h.Holds k := by
  obtain ⟨c, hwork⟩ := hawaits
  have hmiss : h.cache[k]? = none := sound _ hwork
  rintro (⟨⟨v, hcache⟩, _⟩ | ⟨v, c', hpromised⟩)
  · rw [hcache] at hmiss
    cases hmiss
  · rw [hwork] at hpromised
    cases hpromised

/-! ## The two halves of an action -/

/-- A client that asks the store has work that fits, and it holds no more than before. -/
theorem asks {job : Job} {cache : Cache} (hidle : h.work = none)
    (hstart : h.cache.start job.key job.action = (cache, none)) :
    Sound ⟨cache, some ⟨job, .empty⟩⟩ ∧ Within ⟨cache, some ⟨job, .empty⟩⟩ h := by
  obtain ⟨c, act, key⟩ := job
  obtain ⟨rfl, hmiss, rfl⟩ | ⟨v, rfl, hcached, rfl⟩ := Cache.start_asks hstart
  · refine ⟨?_, ?_, ?_⟩
    · rintro w hw
      obtain rfl := Option.some.inj hw
      exact hmiss
    · rintro k (⟨hcache, _⟩ | ⟨v, c, hwork⟩)
      · exact (holds_of_idle hidle).mpr hcache
      · cases hwork
    · rintro k v (⟨hcache, _⟩ | ⟨c, hwork⟩)
      · exact (shows_of_idle hidle).mpr hcache
      · cases hwork
  · refine ⟨?_, ?_, ?_⟩
    · rintro w hw
      obtain rfl := Option.some.inj hw
      exact ⟨by simp, Or.inl rfl⟩
    · rintro k (⟨⟨u, hcache⟩, _⟩ | ⟨u, c, hwork⟩)
      · rw [holds_of_idle hidle]
        rw [Cache.getElem?_insert_key] at hcache
        split at hcache
        · rename_i hkey
          exact hkey ▸ Option.isSome_iff_exists.mp hcached
        · exact ⟨u, hcache⟩
      · cases hwork
    · rintro k u (⟨hcache, hput⟩ | ⟨c, hwork⟩)
      · rw [shows_of_idle hidle]
        rw [Cache.getElem?_insert_key] at hcache
        split at hcache
        · rename_i hkey
          exact absurd ⟨c, v, .empty, by rw [← hkey]⟩ hput
        · exact hcache
      · cases hwork

/-- A client that asks the store still holds what it held. -/
theorem asks_holds {job : Job} {cache : Cache} (hidle : h.work = none)
    (hstart : h.cache.start job.key job.action = (cache, none)) (hk : h.Holds k) :
    Holds ⟨cache, some ⟨job, .empty⟩⟩ k := by
  have hcached := (holds_of_idle hidle).mp hk
  refine Or.inl ⟨?_, ?_⟩
  · obtain ⟨_, _, rfl⟩ | ⟨v, _, _, rfl⟩ := Cache.start_asks hstart
    · exact hcached
    · simp only [Cache.getElem?_insert_key]
      split
      · exact ⟨v, rfl⟩
      · exact hcached
  · rintro ⟨c, v, u, hwork⟩
    cases hwork

theorem sound_of_idle (cache : Cache) : Sound ⟨cache, none⟩ := by
  intro w hw
  cases hw

/-- What a client tells of a key without asking is what it shows. -/
theorem settles {job : Job} {cache : Cache} {r : ClientReply} (hidle : h.work = none)
    (hstart : h.cache.start job.key job.action = (cache, some r)) :
    cache = h.cache ∧ (job.action = .get → r.ok = true → h.Shows job.key r.value) := by
  obtain ⟨rfl, ⟨_, v, hcache, rfl⟩ | ⟨u, hput, _, rfl⟩ | ⟨name, hother, rfl⟩⟩ :=
    Cache.start_settles hstart
  · exact ⟨rfl, fun _ _ => (shows_of_idle hidle).mpr hcache⟩
  · refine ⟨rfl, fun hget => ?_⟩
    rw [hput] at hget
    cases hget
  · refine ⟨rfl, fun hget => ?_⟩
    rw [hother] at hget
    cases hget

section

variable {job : Job} {slot : Slot StoreReply} {answer : Option StoreReply} {cache : Cache}
  {r : ClientReply}

theorem full_of_answer {u : StoreReply} (hanswer : slot.answer? = some (some u)) :
    slot = .full u := by
  cases slot with
  | empty => cases hanswer
  | full r => rw [Option.some.inj (Option.some.inj hanswer)]
  | dropped => cases hanswer
  | spent => cases hanswer

/-- A client that has finished a job holds no more than it held or was promised. -/
theorem finishes (sound : h.Sound) (hwork : h.work = some ⟨job, slot⟩)
    (hanswer : slot.answer? = some answer)
    (hfinish : h.cache.finish job.key job.action answer = (cache, r)) :
    Within ⟨cache, none⟩ h := by
  obtain ⟨c, act, key⟩ := job
  have hfits := sound _ hwork
  refine within_of_idle ?_
  intro k u hcache
  obtain ⟨rfl, v, rfl, rfl, rfl⟩ | ⟨⟨v, rfl⟩, ⟨w, rfl⟩, rfl, rfl⟩ | ⟨rfl, _, hlost⟩ :=
    Cache.finish_cases hfinish
  · obtain rfl := full_of_answer hanswer
    rw [Cache.getElem?_insert_key] at hcache
    split at hcache
    · rename_i hkey
      obtain rfl := Option.some.inj hcache
      exact Or.inr ⟨c, hkey ▸ hwork⟩
    · exact Or.inl ⟨hcache, not_putting_of_get hwork⟩
  · rw [Cache.getElem?_erase_key] at hcache
    split at hcache
    · cases hcache
    · rename_i hkey
      exact Or.inl ⟨hcache, fun hput => hkey (key_of_putting hwork hput)⟩
  · -- only a get comes to nothing, since a put in hand was never turned down
    refine Or.inl ⟨hcache, ?_⟩
    rintro ⟨c', v', slot', hput⟩
    rw [hwork] at hput
    cases hput
    obtain ⟨_, rfl | ⟨w, rfl⟩⟩ := hfits
    · cases hanswer
    · exact hlost (Or.inr ⟨v', rfl⟩) w (Option.some.inj hanswer).symm

/-- A client that has finished a job still holds what it held. -/
theorem finishes_holds (hwork : h.work = some ⟨job, slot⟩)
    (hanswer : slot.answer? = some answer)
    (hfinish : h.cache.finish job.key job.action answer = (cache, r)) (hk : h.Holds k) :
    Holds ⟨cache, none⟩ k := by
  rw [holds_of_idle rfl]
  obtain ⟨c, act, key⟩ := job
  obtain ⟨rfl, v, rfl, rfl, rfl⟩ | ⟨⟨v, rfl⟩, ⟨w, rfl⟩, rfl, rfl⟩ | ⟨rfl, _, hlost⟩ :=
    Cache.finish_cases hfinish
  · simp only [Cache.getElem?_insert_key]
    split
    · exact ⟨v, rfl⟩
    · rename_i hkey
      rcases hk with ⟨hcached, _⟩ | ⟨u, c', hpromised⟩
      · exact hcached
      · rw [hwork] at hpromised
        cases hpromised
        exact absurd rfl hkey
  · obtain rfl := full_of_answer hanswer
    simp only [Cache.getElem?_erase_key]
    rcases hk with ⟨hcached, hkept⟩ | ⟨u, c', hpromised⟩
    · split
      · rename_i hkey
        exact absurd ⟨c, v, w, by rw [hwork, ← hkey]⟩ hkept
      · exact hcached
    · rw [hwork] at hpromised
      cases hpromised
  · rcases hk with ⟨hcached, _⟩ | ⟨u, c', hpromised⟩
    · exact hcached
    · rw [hwork] at hpromised
      cases hpromised
      exact absurd (Option.some.inj hanswer).symm (hlost (Or.inl rfl) u)

/-- What a client tells of a key after asking is what it was promised. -/
theorem finishes_get (hwork : h.work = some ⟨job, slot⟩) (hanswer : slot.answer? = some answer)
    (hfinish : h.cache.finish job.key job.action answer = (cache, r)) (hget : job.action = .get)
    (hok : r.ok = true) : h.Shows job.key r.value := by
  obtain ⟨_, v, rfl, _, rfl⟩ | ⟨⟨v, hput⟩, _⟩ | ⟨_, hfailed, _⟩ := Cache.finish_cases hfinish
  · obtain rfl := full_of_answer hanswer
    obtain ⟨c, act, key⟩ := job
    obtain rfl : act = .get := hget
    exact Or.inr ⟨c, hwork⟩
  · rw [hget] at hput
    cases hput
  · rw [hok] at hfailed
    cases hfailed

end

end Hand

end Custody
