import Custody.Proofs.Alone.Apart
import Custody.Proofs.Client.Register
import Custody.Proofs.Order.Errand
import Custody.Proofs.Stop.Backlog

/-!
# The same client alone

Beside a client whose keys nobody else uses we put one with a store to itself, which does what the
first has answered so far. Between two jobs both have cached the same, and both stores show the same
of these keys. In the middle of a job the first client and its store are somewhere between the two
halves of the step that the second one takes at once. The second never waits, so the first is not
parked either.
-/

namespace Custody

/-- A client with a store to itself after some jobs, and its replies. -/
def Solo.after (jobs : List Job) : Solo × List (Option ClientReply) :=
  run {} (jobs.map fun job => (job.key, job.action))

theorem Solo.after_snoc (jobs : List Job) (job : Job) :
    after (jobs ++ [job]) =
      (((after jobs).1.perform job.key job.action).1,
        (after jobs).2 ++ [((after jobs).1.perform job.key job.action).2]) := by
  rw [after, List.map_append]
  exact run_snoc _ _ _ _

theorem Solo.tracks_after (jobs : List Job) : ∃ registers read,
    (after jobs).1.Tracks registers read := ⟨_, _, (tracks_all _).2⟩

/-- Whoever is answered at once hears it. -/
theorem Verdict.fateOf_self {v : Verdict Requester} {who : Requester} {answer : StoreReply}
    (h : v.reply? = some answer) : v.fateOf who who = some (.answered answer) := by
  cases v with
  | granted u => rw [fateOf_granted, if_pos rfl, Option.some.inj h]
  | parked displaced => cases h
  | accepted u next => rw [fateOf_accepted, if_pos (Or.inl rfl), Option.some.inj h]
  | refused => rw [fateOf_refused, if_pos rfl, Option.some.inj h]

namespace Cluster

/-- What client `i`, which is `m`, and the store make of the keys `mine`, beside a client with a
store to itself. -/
inductive Mirrors (s : Cluster) (mine : Key → Prop) (i : Nat) (solo : Solo) (m : Member) :
    Prop where
  | idle (hidle : m.work = none) (hcache : m.running = true → m.cache = solo.cache)
      (hsent : s.sentBy (.client i) = [])
      (shows : ∀ k, mine k → Store.Shows (fun _ => .client i) k solo.store s.keeper.store)
  | asked (job : Job) (hwork : m.work = some ⟨job, .empty⟩) (hmine : mine job.key)
      (hstart : solo.cache.start job.key job.action = (m.cache, none))
      (hsent : s.sentBy (.client i) = [⟨job.action.operation, job.key, .client i⟩])
      (shows : ∀ k, mine k → Store.Shows (fun _ => .client i) k solo.store s.keeper.store)
  | told (job : Job) (answer : StoreReply) (hwork : m.work = some ⟨job, .full answer⟩)
      (hstart : solo.cache.start job.key job.action = (m.cache, none))
      (hreply : (solo.decide job.key job.action).2.reply? = some answer)
      (hsent : s.sentBy (.client i) = [])
      (shows : ∀ k, mine k → Store.Shows (fun _ => .client i) k
        (solo.decide job.key job.action).1 s.keeper.store)

variable {s t : Cluster} {mine : Key → Prop} {i : Nat} {solo : Solo} {m m' : Member} {job : Job}
  {r : Request Requester}

theorem Mirrors.congr (mirrors : s.Mirrors mine i solo m) (still : s.Still t i)
    (hwork : m'.work = m.work) (hcache : m'.cache = m.cache)
    (hrun : m'.running = true → m.running = true) : t.Mirrors mine i solo m' := by
  have hshows := still.store
  cases mirrors with
  | idle hidle hsame hsent shows =>
    exact .idle (hwork.trans hidle) (fun h => hcache.trans (hsame (hrun h)))
      (still.sent.trans hsent) (hshows ▸ shows)
  | asked job hjob hmine hstart hsent shows =>
    exact .asked job (hwork.trans hjob) hmine (hcache ▸ hstart) (still.sent.trans hsent)
      (hshows ▸ shows)
  | told job answer hjob hstart hreply hsent shows =>
    exact .told job answer (hwork.trans hjob) (hcache ▸ hstart) hreply (still.sent.trans hsent)
      (hshows ▸ shows)

theorem Mirrors.of_idle (mirrors : s.Mirrors mine i solo m) (hidle : m.work = none) :
    (m.running = true → m.cache = solo.cache) ∧ s.sentBy (.client i) = [] ∧
      ∀ k, mine k → Store.Shows (fun _ => .client i) k solo.store s.keeper.store := by
  cases mirrors with
  | idle _ hcache hsent shows => exact ⟨hcache, hsent, shows⟩
  | asked job hwork => rw [hidle] at hwork; cases hwork
  | told job answer hwork => rw [hidle] at hwork; cases hwork

/-- Of a request for somebody else's key the client hears nothing, and nothing shows of it. -/
theorem Mirrors.serve_other (mirrors : s.Mirrors mine i solo m) (hkey : ¬ mine r.key)
    (hsent : t.sentBy (.client i) = s.sentBy (.client i))
    (hstore : t.keeper.store = (s.keeper.store.handle s.isPresent r).1) :
    t.Mirrors mine i solo m := by
  have hother : ∀ {store : Store Unit},
      (∀ k, mine k → Store.Shows (fun _ => .client i) k store s.keeper.store) →
      ∀ k, mine k → Store.Shows (fun _ => .client i) k store t.keeper.store := by
    intro store shows k hk
    rw [hstore]
    exact (shows k hk).other fun heq => hkey (heq ▸ hk)
  cases mirrors with
  | idle hidle hcache hnone shows =>
    exact .idle hidle hcache (hsent.trans hnone) (hother shows)
  | asked job hwork hmine hstart hone shows =>
    exact .asked job hwork hmine hstart (hsent.trans hone) (hother shows)
  | told job answer hwork hstart hreply hnone shows =>
    exact .told job answer hwork hstart hreply (hsent.trans hnone) (hother shows)

/-- The client's own request is decided as it is alone, and so at once. -/
theorem Mirrors.serve_own {registers : Register} {read : Key → Prop}
    (mirrors : s.Mirrors mine i solo m) (tracks : solo.Tracks registers read)
    (hsent : s.sentBy (.client i) = r :: t.sentBy (.client i))
    (hstore : t.keeper.store = (s.keeper.store.handle s.isPresent r).1) :
    t.Mirrors mine i solo
        (m.hear ((s.keeper.store.handle s.isPresent r).2.fateOf r.who (.client i))) ∧
      ∀ d, (s.keeper.store.handle s.isPresent r).2 ≠ .parked d := by
  cases mirrors with
  | idle hidle hcache hnone =>
    rw [hnone] at hsent
    cases hsent
  | told job answer hwork hstart hreply hnone =>
    rw [hnone] at hsent
    cases hsent
  | asked job hwork hmine hstart hone shows =>
    rw [hone] at hsent
    obtain ⟨hr, hnone⟩ := List.cons.inj hsent
    let own : Request Unit := ⟨job.action.operation, job.key, ()⟩
    have hmap : r = own.map fun _ => .client i := hr.symm
    have hpresent : ∀ x, solo.store.waiter own.key = some x →
        s.isPresent (.client i) = true := by
      intro x hx
      rw [tracks.free] at hx
      cases hx
    obtain ⟨answer, hreply⟩ := tracks.answered hstart
    have hverdict : (s.keeper.store.handle s.isPresent r).2 =
        (solo.decide job.key job.action).2.map fun _ => .client i := by
      rw [hmap]
      exact (shows own.key hmine).verdict hpresent
    have hheard : (s.keeper.store.handle s.isPresent r).2.reply? = some answer := by
      rw [hverdict, Verdict.reply?_map, hreply]
    constructor
    · have hwho : r.who = .client i := by rw [hmap]; rfl
      rw [hwho, Verdict.fateOf_self hheard]
      refine .told job answer ?_ hstart hreply hnone.symm fun k hk => ?_
      · rw [Member.hear, hwork]
        rfl
      · rw [hstore, hmap]
        exact (shows k hk).handle (shows own.key hmine) hpresent
    · intro d hd
      rw [hd] at hheard
      cases hheard

end Cluster

end Custody
