import Custody.Proofs.Cluster.Rules
import Custody.Proofs.Store.Keys

/-!
# Scenes

Who holds a key is decided by the store, by the requests that are on their way to it, and by the
cache and the work in hand of each running client. A scene is just that; calls, handles and the
clients' inboxes are left out. While the store runs, each step of a cluster is a step of its scene.
-/

namespace Custody

/-- What a running client has in hand. -/
structure Hand where
  cache : Cache
  work : Option Work

def Hand.hear (h : Hand) (f : Option Fate) : Hand := { h with work := h.work.map (·.hear f) }

structure Scene where
  store : Store Requester
  queue : List (Request Requester)
  hand : Nat → Option Hand

/-- The first fate that a verdict settles for somebody. -/
def Verdict.fateOf (v : Verdict Requester) (who x : Requester) : Option Fate :=
  (v.fates who).lookup x

/-- An event that concerns neither the store's tables nor a client's cache. -/
def Event.Aside : Event → Prop
  | observed _ _ => True
  | left _ => True
  | retired => True
  | ended _ _ => True
  | _ => False

namespace Scene

/-- The scene after the store has decided on its first request. -/
def served (a : Scene) (present : Requester → Bool) (r : Request Requester)
    (rest : List (Request Requester)) : Scene where
  store := (a.store.handle present r).1
  queue := rest
  hand i := (a.hand i).map (·.hear ((a.store.handle present r).2.fateOf r.who (.client i)))

/-- The scene after client `i` has changed what it has in hand. -/
def handed (a : Scene) (i : Nat) (h : Option Hand) : Scene :=
  { a with hand := Function.update a.hand i h }

/-- The scene after somebody has sent a request. -/
def sent (a : Scene) (r : Request Requester) : Scene := { a with queue := a.queue ++ [r] }

/-- The scene after some requests have been taken back. -/
def cleared (a : Scene) (rest : List (Request Requester)) : Scene := { a with queue := rest }

theorem hand_served {a : Scene} {present : Requester → Bool} {r : Request Requester}
    {rest : List (Request Requester)} {i : Nat} {h' : Hand} :
    (a.served present r rest).hand i = some h' ↔ ∃ h, a.hand i = some h ∧
      h.hear ((a.store.handle present r).2.fateOf r.who (.client i)) = h' :=
  Option.map_eq_some_iff

/-- Only client `i` has something else in hand than before. -/
theorem hand_handed (a : Scene) (i : Nat) (x : Option Hand) (j : Nat) :
    (a.handed i x).hand j = if j = i then x else a.hand j :=
  Function.update_apply a.hand i x j

theorem handed_cases {a : Scene} {i j : Nat} {x : Option Hand} {h : Hand}
    (hj : (a.handed i x).hand j = some h) : (j = i ∧ x = some h) ∨ a.hand j = some h := by
  rw [hand_handed] at hj
  split at hj
  · rename_i hji
    exact Or.inl ⟨hji, hj⟩
  · exact Or.inr hj

/-- The first request in the queue, and those behind it. -/
theorem mem_queue {a : Scene} {r : Request Requester} {rest : List (Request Requester)}
    (hqueue : a.queue = r :: rest) : r ∈ a.queue ∧ ∀ q ∈ rest, q ∈ a.queue := by
  rw [hqueue]
  exact ⟨List.mem_cons_self, fun q hq => List.mem_cons_of_mem r hq⟩

inductive Step (R : Rules) (a : Scene) : List Event → Scene → Prop where
  | aside (es : List Event) (haside : ∀ e ∈ es, e.Aside) : Step R a es a
  | post (r : Request Requester) (c : Nat) (hwho : r.who = .caller c) (hop : R.asks r.op) :
      Step R a [] (a.sent r)
  | withdraw (rest : List (Request Requester)) (hrest : rest.Sublist a.queue)
      (hkeep : ∀ r ∈ a.queue, ∀ i, r.who = .client i → r ∈ rest) :
      Step R a [] (a.cleared rest)
  | stop (i : Nat) (rest : List (Request Requester)) (es : List Event) (hstops : R.stops)
      (hrest : rest.Sublist a.queue) (haside : ∀ e ∈ es, e.Aside) :
      Step R a es ((a.cleared rest).handed i none)
  | serve (present : Requester → Bool) (r : Request Requester) (rest : List (Request Requester))
      (hqueue : a.queue = r :: rest) (hpresent : ∀ i, present (.client i) = (a.hand i).isSome) :
      Step R a [.served r (a.store.handle present r).2] (a.served present r rest)
  | ask (i : Nat) (h : Hand) (job : Job) (cache : Cache) (hi : a.hand i = some h)
      (hidle : h.work = none) (hstart : h.cache.start job.key job.action = (cache, none)) :
      Step R a [.asked i job] ((a.handed i (some ⟨cache, some ⟨job, .empty⟩⟩)).sent
        ⟨job.action.operation, job.key, .client i⟩)
  | settle (i : Nat) (h : Hand) (job : Job) (cache : Cache) (r : ClientReply)
      (hi : a.hand i = some h) (hidle : h.work = none)
      (hstart : h.cache.start job.key job.action = (cache, some r)) :
      Step R a [.answered i job r] (a.handed i (some ⟨cache, none⟩))
  | finish (i : Nat) (h : Hand) (job : Job) (slot : Slot StoreReply) (answer : Option StoreReply)
      (cache : Cache) (r : ClientReply) (hi : a.hand i = some h)
      (hwork : h.work = some ⟨job, slot⟩) (hanswer : slot.answer? = some answer)
      (hfinish : h.cache.finish job.key job.action answer = (cache, r)) :
      Step R a [.answered i job r] (a.handed i (some ⟨cache, none⟩))

theorem Step.served_cases {R : Rules} {a b : Scene} {r : Request Requester}
    {v : Verdict Requester} (h : Step R a [.served r v] b) :
    ∃ present rest, a.queue = r :: rest ∧ (a.store.handle present r).2 = v := by
  generalize hes : [Event.served r v] = es at h
  cases h with
  | aside _ haside =>
    subst hes
    exact absurd (haside _ (List.mem_singleton.mpr rfl)) id
  | post => cases hes
  | withdraw => cases hes
  | stop i rest _ _ _ haside =>
    subst hes
    exact absurd (haside _ (List.mem_singleton.mpr rfl)) id
  | serve present r' rest hqueue =>
    obtain ⟨rfl, rfl⟩ := Event.served.inj (List.singleton_inj.mp hes)
    exact ⟨present, rest, hqueue, rfl⟩
  | ask => cases hes
  | settle => cases hes
  | finish => cases hes

theorem Step.answered_cases {R : Rules} {a b : Scene} {i : Nat} {job : Job} {r : ClientReply}
    (h : Step R a [.answered i job r] b) :
    (∃ h cache, a.hand i = some h ∧ h.work = none ∧
      h.cache.start job.key job.action = (cache, some r)) ∨
    ∃ h slot answer cache, a.hand i = some h ∧ h.work = some ⟨job, slot⟩ ∧
      slot.answer? = some answer ∧ h.cache.finish job.key job.action answer = (cache, r) := by
  generalize hes : [Event.answered i job r] = es at h
  cases h with
  | aside _ haside =>
    subst hes
    exact absurd (haside _ (List.mem_singleton.mpr rfl)) id
  | post => cases hes
  | withdraw => cases hes
  | stop i rest _ _ _ haside =>
    subst hes
    exact absurd (haside _ (List.mem_singleton.mpr rfl)) id
  | serve => cases hes
  | ask => cases hes
  | settle i h job cache r hi hidle hstart =>
    obtain ⟨rfl, rfl, rfl⟩ := Event.answered.inj (List.singleton_inj.mp hes)
    exact Or.inl ⟨h, cache, hi, hidle, hstart⟩
  | finish i h job slot answer cache r hi hwork hanswer hfinish =>
    obtain ⟨rfl, rfl, rfl⟩ := Event.answered.inj (List.singleton_inj.mp hes)
    exact Or.inr ⟨h, slot, answer, cache, hi, hwork, hanswer, hfinish⟩

end Scene

/-! ## The scene of a cluster -/

def Member.hand? (m : Member) : Option Hand := if m.running then some ⟨m.cache, m.work⟩ else none

def Command.request? : Command → Option (Request Requester)
  | request r => some r
  | snapshot _ => none

namespace Cluster

def hand (s : Cluster) (i : Nat) : Option Hand := s.members[i]?.bind Member.hand?

def requests (s : Cluster) : List (Request Requester) :=
  s.keeper.inbox.entries.filterMap Command.request?

def scene (s : Cluster) : Scene := ⟨s.keeper.store, s.requests, s.hand⟩

variable {s t : Cluster}

theorem hand_eq_some_iff {i : Nat} {h : Hand} :
    s.hand i = some h ↔ ∃ m, s.members[i]? = some m ∧ m.running = true ∧
      h = ⟨m.cache, m.work⟩ := by
  simp only [hand, Option.bind_eq_some_iff, Member.hand?]
  constructor
  · rintro ⟨m, hm, h⟩
    split at h
    · rename_i hrun
      exact ⟨m, hm, hrun, (Option.some.inj h).symm⟩
    · cases h
  · rintro ⟨m, hm, hrun, rfl⟩
    exact ⟨m, hm, by simp [hrun]⟩

theorem hand_of_member {i : Nat} {m : Member} (hm : s.members[i]? = some m)
    (hrun : m.running = true) : s.hand i = some ⟨m.cache, m.work⟩ :=
  hand_eq_some_iff.mpr ⟨m, hm, hrun, rfl⟩

theorem isPresent_client (s : Cluster) (i : Nat) :
    s.isPresent (.client i) = (s.hand i).isSome := by
  simp only [isPresent, hand]
  cases s.members[i]? with
  | none => rfl
  | some m => cases hrun : m.running <;> simp [Member.hand?, hrun]

theorem hand_of_members (h : t.members = s.members) : t.hand = s.hand := by
  funext i
  rw [hand, hand, h]

theorem hand_onMember (i : Nat) (f : Member → Member) :
    (s.onMember i f).hand = Function.update s.hand i ((s.members[i]?.map f).bind Member.hand?) := by
  funext j
  rw [hand, members_onMember]
  by_cases hij : i = j
  · subst hij
    simp
  · rw [if_neg hij, Function.update_of_ne (Ne.symm hij), hand]

/-- A change of its handle or its inbox does not show in a member's hand. -/
theorem hand_onMember_of_same {i : Nat} {f : Member → Member} (hf : ∀ m, (f m).hand? = m.hand?) :
    (s.onMember i f).hand = s.hand := by
  rw [hand_onMember, Option.bind_map]
  have hsame : s.members[i]?.bind (Member.hand? ∘ f) = s.hand i := by
    rw [hand]
    exact congrArg (s.members[i]?.bind ·) (funext hf)
  rw [hsame, Function.update_eq_self]

theorem hand_tell (fates : List (Requester × Fate)) (i : Nat) :
    (s.tell fates).hand i = (s.hand i).map (·.hear (fates.lookup (.client i))) := by
  rw [hand, members_tell, hand]
  cases s.members[i]? with
  | none => rfl
  | some m =>
    simp only [Option.map_some, Option.bind_some, Member.hand?, Member.hear]
    split <;> rfl

/-- A scene is made of three things only. -/
theorem scene_eq {a : Scene} (hstore : s.keeper.store = a.store) (hqueue : s.requests = a.queue)
    (hhand : s.hand = a.hand) : s.scene = a := by
  obtain ⟨store, queue, hand⟩ := a
  simp only [scene, hstore, hqueue, hhand]

/-- Withdrawing takes messages of one sender out, and only such. -/
theorem entries_withdraw {α : Type} (b : Inbox α) (p : α → Bool) :
    (b.withdraw p).entries.Sublist b.entries ∧
      ∀ c ∈ b.entries, p c = false → c ∈ (b.withdraw p).entries := by
  simp only [Inbox.withdraw, Inbox.queued, Inbox.blocked]
  constructor
  · conv_rhs => rw [← List.take_append_drop b.room b.entries]
    exact (List.Sublist.refl _).append List.filter_sublist
  · intro c hc hp
    rw [← List.take_append_drop b.room b.entries, List.mem_append] at hc
    rcases hc with hc | hc
    · exact List.mem_append_left _ hc
    · exact List.mem_append_right _ (List.mem_filter.mpr ⟨hc, by simp [hp]⟩)

theorem requests_withdraw (s : Cluster) (who : Requester) :
    (s.withdraw who).requests.Sublist s.requests ∧
      ∀ r ∈ s.requests, r.who ≠ who → r ∈ (s.withdraw who).requests := by
  obtain ⟨hsub, hkeep⟩ := entries_withdraw s.keeper.inbox fun command => command.sender == who
  constructor
  · exact hsub.filterMap Command.request?
  · intro r hr hne
    obtain ⟨c, hc, hcr⟩ := List.mem_filterMap.mp hr
    cases c with
    | snapshot id => cases hcr
    | request r' =>
      obtain rfl : r' = r := Option.some.inj hcr
      exact List.mem_filterMap.mpr ⟨_, hkeep _ hc (by simpa [Command.sender] using hne), rfl⟩

end Cluster

end Custody
