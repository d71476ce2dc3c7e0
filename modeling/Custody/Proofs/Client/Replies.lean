import Custody.Client.Bench
import Custody.Proofs.Client.Halves
import Custody.Proofs.Json.Forms

/-!
# What a reply says

An action ends in one of seven ways, and the store can only choose between two of them when it is
asked. Reply and cache follow from the way: an error text is there exactly when the action has
failed, it depends on the action and on whether the key was cached, and a failed action leaves the
cache as it was, but for a put that the store does not take: the value stays changed.
-/

namespace Custody

theorem Failure.message_ne_empty (cause : Failure) : cause.message ≠ "" := by
  intro h
  cases cause with
  | unknownAction name =>
    have htext : "unknown action" = "" := h
    exact absurd htext (by decide)
  | unknownOperation name => exact absurd (String.append_eq_empty_iff.mp h).2 (by decide)
  | clientUnavailable name => exact absurd (String.append_eq_empty_iff.mp h).2 (by decide)
  | _ => exact absurd h (by decide)

/-- The text of a failed action. It does not say what the store did. -/
def Action.failureText (a : Action) (cached : Bool) : String :=
  match a with
  | .get => "kv read failed"
  | .put _ => if cached then "kv write failed (key missing in store)" else "key not in local cache"
  | .unsupported _ => "unknown action"

namespace Cache

/-- The ways in which an action on `k` can end, with the cache after it and the reply. -/
inductive Ends (cache : Cache) (k : Key) : Action → Cache → ClientReply → Prop where
  | hit (v : Value) (cached : cache[k]? = some v) : Ends cache k .get cache (.cacheHit v)
  | fetched (v : Value) (missing : cache[k]? = none) :
      Ends cache k .get (cache.insert k v) (.fetched v)
  | unread (missing : cache[k]? = none) : Ends cache k .get cache (.failed .readFailed)
  | released (v : Value) (cached : cache[k]?.isSome) :
      Ends cache k (.put v) ((cache.insert k v).erase k) .released
  | unwritten (v : Value) (cached : cache[k]?.isSome) :
      Ends cache k (.put v) (cache.insert k v) (.failed .writeToMissingKey)
  | unheld (v : Value) (missing : cache[k]? = none) :
      Ends cache k (.put v) cache (.failed .localCacheMiss)
  | unknown (name : String) :
      Ends cache k (.unsupported name) cache (.failed (.unknownAction name))

/-- What may be relied on when an action on `k` has changed `cache` to `after` and got reply `r`. -/
structure ReplyLaw (cache : Cache) (k : Key) (a : Action) (after : Cache) (r : ClientReply) :
    Prop where
  err : r.ok = true ↔ r.err = none
  written : ∃ members, Json.parse? r.json.render = some (.record members) ∧
    (r.ok = true ↔ "err" ∉ members.map Prod.fst)
  errText : r.ok = true ↔ r.errText = ""
  refused : r.ok = false → r.value = 0 ∧ r.hit = false
  hit : r.hit = true ↔ (a = .get ∧ cache[k]?.isSome) ∨ ((∃ v, a = .put v) ∧ r.ok = true)
  failure : r.ok = false → r.err = some (a.failureText cache[k]?.isSome)
  fetched : a = .get → r.ok = true → after[k]? = some r.value
  untouched : (a = .get ∧ r.ok = false) ∨ ((∃ v, a = .put v) ∧ cache[k]? = none) ∨
    (∃ name, a = .unsupported name) → after = cache
  attempted : ∀ v, a = .put v → cache[k]?.isSome → r.ok = false → after = cache.insert k v

variable {cache after : Cache} {k : Key} {a : Action} {r : ClientReply}

/-! ## How an action ends -/

theorem ends_get (missing : cache[k]? = none) (answer : Option StoreReply) :
    cache.Ends k .get (cache.finish k .get answer).1 (cache.finish k .get answer).2 := by
  obtain _ | ⟨v, _ | _⟩ := answer
  · exact .unread missing
  · exact .unread missing
  · exact .fetched v missing

theorem ends_put {v : Value} (cached : cache[k]?.isSome) (answer : Option StoreReply) :
    cache.Ends k (.put v) (finish (cache.insert k v) k (.put v) answer).1
      (finish (cache.insert k v) k (.put v) answer).2 := by
  obtain _ | ⟨u, _ | _⟩ := answer
  · exact .unwritten v cached
  · exact .unwritten v cached
  · exact .released v cached

theorem ends_perform (cache : Cache) (k : Key) (a : Action) (answer : Option StoreReply) :
    cache.Ends k a (cache.perform k a answer).1 (cache.perform k a answer).2.1 := by
  rcases hstart : cache.start k a with ⟨next, _ | r⟩
  · have hlast : cache.perform k a answer =
        ((next.finish k a answer).1, (next.finish k a answer).2, some a.operation) := by
      simp only [perform, hstart]
    rw [hlast]
    obtain ⟨rfl, hmissing, rfl⟩ | ⟨v, rfl, hcached, rfl⟩ := start_asks hstart
    · exact ends_get hmissing answer
    · exact ends_put hcached answer
  · have hlast : cache.perform k a answer = (next, r, none) := by simp only [perform, hstart]
    rw [hlast]
    obtain ⟨rfl, ⟨rfl, v, hv, rfl⟩ | ⟨v, rfl, hv, rfl⟩ | ⟨name, rfl, rfl⟩⟩ := start_settles hstart
    · exact .hit v hv
    · exact .unheld v hv
    · exact .unknown name

/-! ## What follows from the way it ends -/

/-- A reply is ok and has no error text, or it is that of a failure. -/
theorem Ends.reply (ends : cache.Ends k a after r) :
    (r.ok = true ∧ r.err = none) ∨
      ∃ cause, r = .failed cause ∧ cause.message = a.failureText cache[k]?.isSome := by
  cases ends with
  | hit v cached => exact Or.inl ⟨rfl, rfl⟩
  | fetched v missing => exact Or.inl ⟨rfl, rfl⟩
  | unread missing => exact Or.inr ⟨_, rfl, rfl⟩
  | released v cached => exact Or.inl ⟨rfl, rfl⟩
  | unwritten v cached =>
    refine Or.inr ⟨_, rfl, ?_⟩
    rw [cached]
    rfl
  | unheld v missing =>
    refine Or.inr ⟨_, rfl, ?_⟩
    rw [missing]
    rfl
  | unknown name => exact Or.inr ⟨_, rfl, rfl⟩

theorem Ends.failed (ends : cache.Ends k a after r) (hr : r.ok = false) :
    ∃ cause, r = .failed cause ∧ cause.message = a.failureText cache[k]?.isSome := by
  rcases ends.reply with ⟨hok, _⟩ | hcause
  · cases hr.symm.trans hok
  · exact hcause

theorem Ends.ok_iff (ends : cache.Ends k a after r) : r.ok = true ↔ r.err = none := by
  rcases ends.reply with ⟨hok, hnone⟩ | ⟨cause, rfl, _⟩
  · simp [hok, hnone]
  · simp [ClientReply.failed]

/-- No failure is without a text. -/
theorem Ends.errText_iff (ends : cache.Ends k a after r) : r.ok = true ↔ r.errText = "" := by
  rcases ends.reply with ⟨hok, hnone⟩ | ⟨cause, rfl, _⟩
  · simp [hok, ClientReply.errText, hnone]
  · simp [ClientReply.failed, ClientReply.errText, cause.message_ne_empty]

theorem Ends.hit_iff (ends : cache.Ends k a after r) :
    r.hit = true ↔ (a = .get ∧ cache[k]?.isSome) ∨ ((∃ v, a = .put v) ∧ r.ok = true) := by
  cases ends <;>
    simp_all [ClientReply.cacheHit, ClientReply.fetched, ClientReply.released, ClientReply.failed]

theorem Ends.fetched_value (ends : cache.Ends k .get after r) (hr : r.ok = true) :
    after[k]? = some r.value := by
  cases ends with
  | hit v cached => exact cached
  | fetched v missing => rw [getElem?_insert_key, if_pos rfl, ClientReply.fetched]
  | unread missing => cases hr

theorem Ends.untouched (ends : cache.Ends k a after r)
    (h : (a = .get ∧ r.ok = false) ∨ ((∃ v, a = .put v) ∧ cache[k]? = none) ∨
      (∃ name, a = .unsupported name)) : after = cache := by
  cases ends with
  | fetched v missing => simp [ClientReply.fetched] at h
  | released v cached => simp_all
  | unwritten v cached => simp_all
  | _ => rfl

/-- The store has not taken the value, and the client keeps it. -/
theorem Ends.attempted {v : Value} (ends : cache.Ends k (.put v) after r)
    (hcached : cache[k]?.isSome) (hr : r.ok = false) : after = cache.insert k v := by
  cases ends with
  | released v cached => cases hr
  | unwritten v cached => rfl
  | unheld v missing => simp [missing] at hcached

/-- The error text is written as a member of its own, and left out where there is none. -/
theorem err_mem_json (r : ClientReply) : ∃ members,
    Json.parse? r.json.render = some (.record members) ∧
      ("err" ∈ members.map Prod.fst ↔ r.err ≠ none) := by
  refine ⟨_, Json.parse?_render _, ?_⟩
  cases r.err <;> simp

theorem Ends.replyLaw (ends : cache.Ends k a after r) : cache.ReplyLaw k a after r where
  err := ends.ok_iff
  written := by
    obtain ⟨members, hread, hmem⟩ := err_mem_json r
    refine ⟨members, hread, ?_⟩
    rw [hmem, ends.ok_iff, not_not]
  errText := ends.errText_iff
  refused hr := by
    obtain ⟨cause, rfl, _⟩ := ends.failed hr
    exact ⟨rfl, rfl⟩
  hit := ends.hit_iff
  failure hr := by
    obtain ⟨cause, rfl, htext⟩ := ends.failed hr
    exact congrArg some htext
  fetched := by
    rintro rfl hr
    exact ends.fetched_value hr
  untouched := ends.untouched
  attempted := by
    rintro v rfl hcached hr
    exact ends.attempted hcached hr

end Cache

theorem Scripted.perform_eq (s : Scripted) (k : Key) (a : Action) :
    (s.perform k a).1.cache = (s.cache.perform k a s.script.request.2.2).1 ∧
      (s.perform k a).2.1 = (s.cache.perform k a s.script.request.2.2).2.1 := by
  simp only [perform]
  split
  · rename_i hperform
    rw [hperform]
    exact ⟨rfl, rfl⟩
  · rename_i hperform
    rw [hperform]
    exact ⟨rfl, rfl⟩

/-- The law holds whatever the store answers or fails to answer, and so in front of any script: one
that grants, refuses, lets the reply go or does not listen any more. -/
theorem replies_are_lawful :
    (∀ (cache : Cache) (k : Key) (a : Action) (answer : Option StoreReply),
      cache.ReplyLaw k a (cache.perform k a answer).1 (cache.perform k a answer).2.1) ∧
    ∀ (s : Scripted) (k : Key) (a : Action),
      s.cache.ReplyLaw k a (s.perform k a).1.cache (s.perform k a).2.1 := by
  have hlaw : ∀ (cache : Cache) (k : Key) (a : Action) (answer : Option StoreReply),
      cache.ReplyLaw k a (cache.perform k a answer).1 (cache.perform k a answer).2.1 :=
    fun cache k a answer => (cache.ends_perform k a answer).replyLaw
  refine ⟨hlaw, fun s k a => ?_⟩
  obtain ⟨hcache, hreply⟩ := s.perform_eq k a
  rw [hcache, hreply]
  exact hlaw s.cache k a s.script.request.2.2

end Custody
