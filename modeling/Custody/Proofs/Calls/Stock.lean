import Custody.Proofs.Calls.Truth

/-!
# Every cached key has a value

Whatever anybody writes, no key loses its value, and a client has in its cache only keys that it
was granted. So the store refuses nothing that a client asks for, and a client that hears from the
store hears good news.
-/

namespace Custody

/-- A client's request comes off if it is answered; only a get that has not been answered may be
for a key without a value. -/
structure Sure (store : Store Requester) (job : Job) (slot : Slot StoreReply) : Prop where
  ok : ∀ r, slot = .full r → r.ok = true
  known : ∀ name, job.action ≠ .unsupported name
  valued : (job.action = .get ∧ ∀ r, slot ≠ .full r) ∨ (store.value job.key).isSome

/-- What a client tells its caller after it has heard from the store. -/
theorem Sure.right {store : Store Requester} {job : Job} {slot : Slot StoreReply}
    {answer : Option StoreReply} {cache after : Cache} {r : ClientReply} {es : List Event} {i : Nat}
    (sure : Sure store job slot) (hanswer : slot.answer? = some answer)
    (hfinish : cache.finish job.key job.action answer = (after, r))
    (hlost : slot = .dropped ↔ job.action.operation = .read ∧ Overtaken es i job)
    (hasked : .asked i job ∈ es) : Right es i job r := by
  cases slot with
  | empty => cases hanswer
  | full u =>
    obtain rfl := Option.some.inj hanswer
    obtain ⟨v, ok⟩ := u
    obtain rfl : ok = true := sure.ok _ rfl
    cases hact : job.action with
    | get =>
      rw [hact] at hfinish hlost
      obtain ⟨_, rfl⟩ := Prod.mk.inj hfinish
      have hkept : ¬ Overtaken es i job := by
        intro hovertaken
        cases hlost.mpr ⟨rfl, hovertaken⟩
      rw [Right, hact]
      exact ⟨by simp [ClientReply.fetched], by simp [ClientReply.fetched, hkept]⟩
    | put w =>
      rw [hact] at hfinish
      obtain ⟨_, rfl⟩ := Prod.mk.inj hfinish
      rw [Right, hact]
      exact Or.inl ⟨hasked, rfl⟩
    | unsupported name => exact absurd hact (sure.known name)
  | dropped =>
    obtain rfl := Option.some.inj hanswer
    obtain ⟨hread, hovertaken⟩ := hlost.mp rfl
    cases hact : job.action with
    | get =>
      rw [hact] at hfinish
      obtain ⟨_, rfl⟩ := Prod.mk.inj hfinish
      rw [Right, hact]
      exact ⟨fun _ => rfl, by simp [ClientReply.failed, hovertaken]⟩
    | put w =>
      rw [hact] at hread
      cases hread
    | unsupported name => exact absurd hact (sure.known name)
  | spent => cases hanswer

namespace Store

variable {s : Store Requester} {present : Requester → Bool} {r : Request Requester}
  {x : Requester} {reply : StoreReply}

/-- An answer is good news of the key's value, unless it is a refusal. -/
theorem news_of_answered (h : (s.handle present r).2.fateOf r.who x = some (.answered reply)) :
    (reply.ok = true ∧ ((s.handle present r).1.value r.key).isSome) ∨
      (x = r.who ∧ (s.handle present r).2 = .refused) := by
  cases hv : (s.handle present r).2 with
  | granted v =>
    rw [hv, Verdict.fateOf_granted] at h
    split at h
    · obtain rfl := Fate.answered.inj (Option.some.inj h)
      exact Or.inl ⟨rfl, by simp [value_handle, hv]⟩
    · cases h
  | parked d =>
    rw [hv, Verdict.fateOf_parked] at h
    split at h <;> cases h
  | accepted v n =>
    rw [hv, Verdict.fateOf_accepted] at h
    split at h
    · obtain rfl := Fate.answered.inj (Option.some.inj h)
      exact Or.inl ⟨rfl, by simp [value_handle, hv]⟩
    · cases h
  | refused =>
    rw [hv, Verdict.fateOf_refused] at h
    split at h
    · rename_i hx
      exact Or.inr ⟨hx, rfl⟩
    · cases h

end Store

/-- Whoever hears of a request has made an inquiry about its key. -/
theorem Docket.Traced.awaits_of_heard {d : Docket} {es : List Event} {present : Requester → Bool}
    {r : Request Requester} {x : Requester} {f : Fate} (traced : d.Traced es) (hr : r ∈ d.queue)
    (hheard : (d.store.handle present r).2.fateOf r.who x = some f) :
    ∃ q, d.inquiry x = some q ∧ q.key = r.key ∧ q.slot = .empty ∧ (r.who = x → q.op = r.op) := by
  by_cases hwho : r.who = x
  · subst hwho
    obtain ⟨q, hq, hop, hkey, hopen⟩ := traced.asked r hr
    exact ⟨q, hq, hkey, hopen, fun _ => hop⟩
  · by_cases hwaits : d.store.waiter r.key = some x
    · obtain ⟨⟨q, hq, hop, hkey, hopen⟩, _⟩ := traced.parked r.key x hwaits
      exact ⟨q, hq, hkey, hopen, fun h => absurd h hwho⟩
    · rw [Store.unheard_of_unconcerned hwho hwaits] at hheard
      cases hheard

namespace Cluster

structure Stocked (s : Cluster) : Prop where
  cached : ∀ (i : Nat) m k v, s.members[i]? = some m → m.running = true →
    m.cache[k]? = some v → (s.keeper.store.value k).isSome
  sure : ∀ (i : Nat) m job slot, s.members[i]? = some m → m.running = true →
    m.work = some ⟨job, slot⟩ → Sure s.keeper.store job slot

variable {s t : Cluster} {es : List Event} {e : Event} {i : Nat} {m : Member}

theorem stocked_start (setup : Setup) : (start setup).Stocked := by
  have hnew : ∀ (i : Nat) m, (start setup).members[i]? = some m → m.cache = ∅ ∧ m.work = none := by
    intro i m hm
    simp only [start, List.getElem?_map, Option.map_eq_some_iff] at hm
    obtain ⟨client, _, rfl⟩ := hm
    exact ⟨rfl, rfl⟩
  constructor
  · intro i m k v hm _ hcache
    rw [(hnew i m hm).1] at hcache
    simp at hcache
  · intro i m job slot hm _ hwork
    rw [(hnew i m hm).2] at hwork
    cases hwork

theorem Stocked.change (stocked : s.Stocked) (hstore : t.keeper.store = s.keeper.store)
    (hm : ∀ (i : Nat) m', t.members[i]? = some m' → m'.running = true →
      ∃ m, s.members[i]? = some m ∧ m.running = true ∧ m'.cache = m.cache ∧ m'.work = m.work) :
    t.Stocked where
  cached := by
    intro i m' k v hm' hrun hcache
    obtain ⟨m, hi, hrun', hsame, _⟩ := hm i m' hm' hrun
    rw [hstore]
    exact stocked.cached i m k v hi hrun' (hsame ▸ hcache)
  sure := by
    intro i m' job slot hm' hrun hwork
    obtain ⟨m, hi, hrun', _, hsame⟩ := hm i m' hm' hrun
    rw [hstore]
    exact stocked.sure i m job slot hi hrun' (hsame ▸ hwork)

theorem Stocked.same (stocked : s.Stocked) (hstore : t.keeper.store = s.keeper.store)
    (hmembers : t.members = s.members) : t.Stocked :=
  stocked.change hstore fun _ m hm hrun => ⟨m, hmembers ▸ hm, hrun, rfl, rfl⟩

/-- A client changes what it has: what is in its cache has a value, and its work is sure. -/
theorem Stocked.onMember {n : Member} (stocked : s.Stocked)
    (hcached : ∀ k v, n.cache[k]? = some v → (s.keeper.store.value k).isSome)
    (hsure : ∀ job slot, n.work = some ⟨job, slot⟩ → Sure s.keeper.store job slot) :
    (s.onMember i fun _ => n).Stocked where
  cached := by
    intro j m' k v hm' hrun hcache
    rcases onMember_cases hm' with ⟨_, _, _, rfl⟩ | ⟨_, hm'⟩
    · exact hcached k v hcache
    · exact stocked.cached j m' k v hm' hrun hcache
  sure := by
    intro j m' job slot hm' hrun hwork
    rcases onMember_cases hm' with ⟨_, _, _, rfl⟩ | ⟨_, hm'⟩
    · exact hsure job slot hwork
    · exact stocked.sure j m' job slot hm' hrun hwork

/-- The store decides in favour of a client, if it hears of it at all. -/
theorem Stocked.sure_served {r : Request Requester} {job : Job} {slot : Slot StoreReply}
    (stocked : s.Stocked) (traced : s.docket.Traced es) (hr : r ∈ s.docket.queue)
    (hm : s.members[i]? = some m) (hrun : m.running = true) (hwork : m.work = some ⟨job, slot⟩) :
    Sure (s.keeper.store.handle s.isPresent r).1 job
      (slot.hear ((s.keeper.store.handle s.isPresent r).2.fateOf r.who (.client i))) := by
  have sure := stocked.sure i m job slot hm hrun hwork
  have hstays : (s.keeper.store.value job.key).isSome →
      ((s.keeper.store.handle s.isPresent r).1.value job.key).isSome := Store.value_stays job.key
  cases hf : (s.keeper.store.handle s.isPresent r).2.fateOf r.who (.client i) with
  | none => exact ⟨sure.ok, sure.known, sure.valued.imp_right hstays⟩
  | some fate =>
    obtain ⟨q, hq, hkey, hopen, hown⟩ := traced.awaits_of_heard hr hf
    obtain rfl := Option.some.inj (hq.symm.trans (inquiry_of_work hm hwork))
    obtain rfl : slot = .empty := by cases slot <;> simp [Slot.map] at hopen ⊢
    have hkey : job.key = r.key := hkey
    have hown : r.who = .client i → job.action.operation = r.op := hown
    cases fate with
    | discarded =>
      refine ⟨by simp [Slot.hear, Slot.fill, Fate.news], sure.known, ?_⟩
      exact sure.valued.imp (fun hget => ⟨hget.1, by simp [Slot.hear, Slot.fill, Fate.news]⟩) hstays
    | answered reply =>
      rcases Store.news_of_answered hf with ⟨hok, hvalue⟩ | ⟨hwho, hrefused⟩
      · refine ⟨?_, sure.known, Or.inr (hkey ▸ hvalue)⟩
        rintro r' hr'
        obtain rfl := Slot.full.inj hr'
        exact hok
      · -- the store refuses neither a read nor a write of a key that has a value
        obtain ⟨hread, hwrite⟩ := Store.op_of_refused hrefused
        have hop := hown hwho.symm
        cases hact : job.action with
        | get =>
          rw [hact] at hop
          exact absurd hop.symm hread
        | put v =>
          rw [hact] at hop
          have hnone := hwrite v hop.symm
          rcases sure.valued with ⟨hget, _⟩ | hvalue
          · rw [hact] at hget
            cases hget
          · rw [hkey, hnone] at hvalue
            cases hvalue
        | unsupported name => exact absurd hact (sure.known name)

theorem stocked_serve (stocked : s.Stocked) (traced : s.docket.Traced es)
    (h : s.serve = some (t, e)) : t.Stocked := by
  obtain ⟨_, rest, ⟨r, hentries, rfl, _⟩ | ⟨c, _, rfl, _⟩⟩ := serve_cases h
  · have hr : r ∈ s.docket.queue := by simp [docket, requests, hentries, Command.request?]
    constructor
    · intro i m' k v hm' hrun hcache
      rw [members_tell] at hm'
      obtain ⟨m, hm, rfl⟩ := Option.map_eq_some_iff.mp hm'
      rw [keeper_tell]
      exact Store.value_stays k (stocked.cached i m k v hm hrun hcache)
    · intro i m' job slot' hm' hrun hwork'
      rw [members_tell] at hm'
      obtain ⟨m, hm, rfl⟩ := Option.map_eq_some_iff.mp hm'
      obtain ⟨⟨job', slot⟩, hwork, hheard⟩ := Option.map_eq_some_iff.mp hwork'
      obtain ⟨rfl, rfl⟩ := Work.mk.inj hheard
      rw [keeper_tell]
      exact stocked.sure_served traced hr hm hrun hwork
  · exact stocked.change rfl fun i m hm hrun => ⟨m, hm, hrun, rfl, rfl⟩

theorem stocked_begin (stocked : s.Stocked) (h : s.begin i = some (t, e))
    (hkeeper : s.keeper.running = true) : t.Stocked := by
  obtain ⟨m, job, rest, cache, hm, hrun, hwork, _, hcases⟩ := begin_cases h
  have hcached : ∀ k v, m.cache[k]? = some v → (s.keeper.store.value k).isSome :=
    fun k v => stocked.cached i m k v hm hrun
  obtain ⟨r, hstart, rfl, _⟩ | ⟨hstart, _, rfl, _⟩ | ⟨_, hstopped, _⟩ := hcases
  · obtain ⟨rfl, _⟩ := Cache.start_settles hstart
    have hsettled := stocked.onMember (i := i) (n := m.take m.cache rest) hcached
      (by simp [Member.take, hwork])
    exact hsettled.same rfl rfl
  · suffices hasked : (s.onMember i fun _ =>
        { m.take cache rest with work := some ⟨job, .empty⟩ }).Stocked from hasked.same rfl rfl
    refine stocked.onMember (n := { m.take cache rest with work := some ⟨job, .empty⟩ }) ?_ ?_
    · intro k v hcache
      obtain ⟨_, _, rfl⟩ | ⟨u, _, hput, rfl⟩ := Cache.start_asks hstart
      · exact hcached k v hcache
      · rw [Member.take, Cache.getElem?_insert_key] at hcache
        split at hcache
        · rename_i hkey
          obtain ⟨w, hw⟩ := Option.isSome_iff_exists.mp hput
          exact hcached k w (hkey ▸ hw)
        · exact hcached k v hcache
    · rintro job' slot hwork'
      cases hwork'
      obtain ⟨hget, _⟩ | ⟨u, hput, hin, _⟩ := Cache.start_asks hstart
      · exact ⟨by simp, by simp [hget], Or.inl ⟨hget, by simp⟩⟩
      · obtain ⟨v, hv⟩ := Option.isSome_iff_exists.mp hin
        exact ⟨by simp, by simp [hput], Or.inr (hcached _ v hv)⟩
  · rw [hkeeper] at hstopped
    cases hstopped

theorem stocked_resume (stocked : s.Stocked) (h : s.resume i = some (t, e))
    (hrunning : ∀ m, s.members[i]? = some m → m.work ≠ none → m.running = true) : t.Stocked := by
  obtain ⟨m, job, slot, answer, cache, r, hm, hwork, hanswer, hfinish, rfl, _⟩ := resume_cases h
  have hrun : m.running = true := hrunning m hm (by simp [hwork])
  have hcached : ∀ k v, m.cache[k]? = some v → (s.keeper.store.value k).isSome :=
    fun k v => stocked.cached i m k v hm hrun
  have hsettled : (s.onMember i fun _ => { m with cache, work := none }).Stocked := by
    refine stocked.onMember (n := { m with cache, work := none }) ?_ (by simp)
    intro k v hcache
    obtain ⟨hget, u, rfl, rfl, _⟩ | ⟨_, _, rfl, _⟩ | ⟨rfl, _⟩ := Cache.finish_cases hfinish
    · rw [Cache.getElem?_insert_key] at hcache
      split at hcache
      · rename_i hkey
        obtain rfl := Hand.full_of_answer hanswer
        rcases (stocked.sure i m job _ hm hrun hwork).valued with ⟨_, hunanswered⟩ | hvalue
        · exact absurd rfl (hunanswered _)
        · exact hkey ▸ hvalue
      · exact hcached k v hcache
    · rw [Cache.getElem?_erase_key] at hcache
      split at hcache
      · cases hcache
      · exact hcached k v hcache
    · exact hcached k v hcache
  exact hsettled.same rfl rfl

end Cluster

end Custody
