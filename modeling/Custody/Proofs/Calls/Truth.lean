import Custody.Proofs.Calls.Booking

/-!
# What a client tells its callers

A get fails when its read was displaced, and only then. A put comes off when the store was asked
for it; otherwise the key was not in the cache. A client takes up its calls in their order and
asks the store at most once for each, so the events tell which read was made for which call.
-/

namespace Custody

/-- The calls for which client `i` has asked the store. -/
def asks (es : List Event) (i : Nat) : List Nat := es.filterMap fun
  | .asked j job => if j = i then some job.call else none
  | _ => none

/-- The read for which client `i` asked on behalf of `job` was parked, and displaced. -/
def Overtaken (es : List Event) (i : Nat) (job : Job) : Prop :=
  ∃ past late, es = past ++ .asked i job :: late ∧ Displaced late (.client i) job.key

/-- What `r` says of a job is what has happened to it. -/
def Right (es : List Event) (i : Nat) (job : Job) (r : ClientReply) : Prop :=
  match job.action with
  | .get => (r.ok = false → r = .failed .readFailed) ∧ (r.ok = false ↔ Overtaken es i job)
  | .put _ => (.asked i job ∈ es ∧ r = .released) ∨
      (.asked i job ∉ es ∧ r = .failed .localCacheMiss)
  | .unsupported name => r = .failed (.unknownAction name)

/-- Every reply was right when it was given. -/
def Truthful (es : List Event) : Prop :=
  ∀ early i job r late, es = early ++ .answered i job r :: late → Right early i job r

section

variable {es : List Event} {e : Event} {i : Nat} {job : Job} {r : ClientReply}

theorem asks_snoc (es : List Event) (e : Event) (i : Nat) : asks (es ++ [e]) i = asks es i ++
    match e with
    | .asked j job => if j = i then [job.call] else []
    | _ => [] := by
  rw [asks, List.filterMap_append]
  refine congrArg (asks es i ++ ·) ?_
  cases e with
  | asked j job =>
    by_cases hj : j = i
    · simp [hj]
    · simp [hj]
  | _ => rfl

theorem asks_snoc_of_other (he : e.opens (.client i) = false) : asks (es ++ [e]) i = asks es i := by
  rw [asks_snoc]
  cases e with
  | asked j job =>
    have hj : j ≠ i := by
      rintro rfl
      simp [Event.opens] at he
    simp [hj]
  | _ => simp

theorem mem_asks (h : .asked i job ∈ es) : job.call ∈ asks es i :=
  List.mem_filterMap.mpr ⟨_, h, by simp⟩

theorem truthful_nil : Truthful [] := by
  rintro early i job r late h
  simp at h

theorem Truthful.snoc (truthful : Truthful es)
    (h : ∀ i job r, e = .answered i job r → Right es i job r) : Truthful (es ++ [e]) := by
  intro early i job r late hes
  rcases split_snoc hes with ⟨rfl, he, _⟩ | ⟨rest, rfl, _⟩
  · exact h i job r he
  · exact truthful early i job r rest rfl

/-- What a client settles alone it has not asked the store about. -/
theorem right_of_start {cache after : Cache}
    (hstart : cache.start job.key job.action = (after, some r)) (hunasked : .asked i job ∉ es) :
    Right es i job r := by
  obtain ⟨_, ⟨hact, v, _, rfl⟩ | ⟨v, hact, _, rfl⟩ | ⟨name, hact, rfl⟩⟩ :=
    Cache.start_settles hstart
  · have hkept : ¬ Overtaken es i job := by
      rintro ⟨past, late, rfl, _⟩
      exact hunasked (by simp)
    rw [Right, hact]
    exact ⟨by simp [ClientReply.cacheHit], by simp [ClientReply.cacheHit, hkept]⟩
  · rw [Right, hact]
    exact Or.inr ⟨hunasked, rfl⟩
  · rw [Right, hact]

/-- A client asks at most once for a call, so there is no doubt what has happened since. -/
theorem overtaken_iff {past : List Event} (honce : (asks es i).Nodup)
    (hsplit : es = past ++ .asked i job :: since es (.client i)) :
    Overtaken es i job ↔ Displaced (since es (.client i)) (.client i) job.key := by
  have hsince : .asked i job ∉ since es (.client i) := by
    intro h
    have hopens := List.mem_rtakeWhile_imp h
    simp [Event.opens] at hopens
  generalize since es (.client i) = later at *
  have hpast : .asked i job ∉ past := by
    intro h
    rw [hsplit, asks, List.filterMap_append, List.nodup_append] at honce
    have hagain : job.call ∈ asks (.asked i job :: later) i := mem_asks List.mem_cons_self
    exact honce.2.2 _ (mem_asks h) _ hagain rfl
  constructor
  · rintro ⟨past', late, hes, hdisplaced⟩
    have hboth := (List.append_cons_inj_of_notMem hpast hsince).mp (hsplit.symm.trans hes)
    rw [hboth.2.2]
    exact hdisplaced
  · exact fun hdisplaced => ⟨past, _, hsplit, hdisplaced⟩

end

/-! ## Each call in its turn -/

namespace Cluster

/-- A client takes up calls in the order of their numbers, and the one it has in hand is the last
for which it asked the store. -/
structure InTurn (s : Cluster) (es : List Event) : Prop where
  rising : ∀ (i : Nat) m, s.members[i]? = some m →
    (asks es i ++ m.inbox.entries.map (·.call)).Pairwise (· < ·)
  numbered : ∀ (i : Nat) m, s.members[i]? = some m →
    ∀ c ∈ asks es i ++ m.inbox.entries.map (·.call), c < s.calls.length
  asked : ∀ (i : Nat) m job slot, s.members[i]? = some m → m.work = some ⟨job, slot⟩ →
    ∃ past, es = past ++ .asked i job :: since es (.client i)

variable {s t : Cluster} {es now : List Event} {e : Event} {i : Nat} {m : Member} {job : Job}

theorem inTurn_start (setup : Setup) : (start setup).InTurn [] := by
  have hnew : ∀ (i : Nat) m, (start setup).members[i]? = some m →
      m.inbox.entries = [] ∧ m.work = none := by
    intro i m hm
    simp only [start, List.getElem?_map, Option.map_eq_some_iff] at hm
    obtain ⟨client, _, rfl⟩ := hm
    exact ⟨rfl, rfl⟩
  refine ⟨?_, ?_, ?_⟩
  · intro i m hm
    rw [(hnew i m hm).1]
    exact List.Pairwise.nil
  · intro i m hm c hc
    rw [(hnew i m hm).1] at hc
    cases hc
  · intro i m job slot hm hwork
    rw [(hnew i m hm).2] at hwork
    cases hwork

theorem InTurn.change (inTurn : s.InTurn es) (hcalls : s.calls.length ≤ t.calls.length)
    (hm : ∀ (i : Nat) m', t.members[i]? = some m' → ∃ m, s.members[i]? = some m ∧
      m'.inbox.entries.Sublist m.inbox.entries ∧
      ∀ job slot, m'.work = some ⟨job, slot⟩ → ∃ slot', m.work = some ⟨job, slot'⟩) :
    t.InTurn es where
  rising := by
    intro i m' hm'
    obtain ⟨m, hi, hsub, _⟩ := hm i m' hm'
    exact (inTurn.rising i m hi).sublist ((List.Sublist.refl _).append (hsub.map _))
  numbered := by
    intro i m' hm' c hc
    obtain ⟨m, hi, hsub, _⟩ := hm i m' hm'
    have hbefore := ((List.Sublist.refl (asks es i)).append (hsub.map _)).subset hc
    exact Nat.lt_of_lt_of_le (inTurn.numbered i m hi c hbefore) hcalls
  asked := by
    intro i m' job slot hm' hwork
    obtain ⟨m, hi, _, hjob⟩ := hm i m' hm'
    obtain ⟨slot', hwork'⟩ := hjob job slot hwork
    exact inTurn.asked i m job slot' hi hwork'

theorem InTurn.log (inTurn : s.InTurn es) (he : ∀ i, e.opens (.client i) = false) :
    s.InTurn (es ++ [e]) where
  rising i m hm := by
    rw [asks_snoc_of_other (he i)]
    exact inTurn.rising i m hm
  numbered i m hm := by
    rw [asks_snoc_of_other (he i)]
    exact inTurn.numbered i m hm
  asked i m job slot hm hwork := by
    obtain ⟨past, hpast⟩ := inTurn.asked i m job slot hm hwork
    refine ⟨past, ?_⟩
    rw [since_snoc, he i, if_neg (by simp)]
    conv_lhs => rw [hpast]
    simp

/-- The first job in the inbox is next, and nobody has asked for it yet. -/
theorem InTurn.unasked {rest : List Job} (inTurn : s.InTurn es) (hm : s.members[i]? = some m)
    (hentries : m.inbox.entries = job :: rest) : .asked i job ∉ es := by
  intro h
  have hrising := inTurn.rising i m hm
  rw [hentries, List.map_cons, List.pairwise_append] at hrising
  exact Nat.lt_irrefl _ (hrising.2.2 _ (mem_asks h) _ List.mem_cons_self)

theorem InTurn.ask {rest : List Job} {cache : Cache} {c : Command} (inTurn : s.InTurn es)
    (hm : s.members[i]? = some m) (hentries : m.inbox.entries = job :: rest) :
    ((s.onMember i fun _ => { m.take cache rest with work := some ⟨job, .empty⟩ }).send c).InTurn
      (es ++ [.asked i job]) := by
  -- for client `i` the number only moves from the inbox to the calls that were asked for
  have hsame : asks (es ++ [.asked i job]) i ++ rest.map (·.call) =
      asks es i ++ m.inbox.entries.map (·.call) := by
    rw [asks_snoc, hentries]
    simp
  have hrising := inTurn.rising i m hm
  have hnumbered := inTurn.numbered i m hm
  have hother : ∀ j, i ≠ j → asks (es ++ [.asked i job]) j = asks es j := by
    intro j hij
    exact asks_snoc_of_other (by simpa [Event.opens] using Ne.symm hij)
  refine ⟨?_, ?_, ?_⟩
  · intro j m' hm'
    rcases onMember_cases hm' with ⟨rfl, _, _, rfl⟩ | ⟨hij, hm'⟩
    · rw [← hsame] at hrising
      exact hrising
    · rw [hother j hij]
      exact inTurn.rising j m' hm'
  · intro j m' hm'
    rcases onMember_cases hm' with ⟨rfl, _, _, rfl⟩ | ⟨hij, hm'⟩
    · rw [← hsame] at hnumbered
      exact hnumbered
    · rw [hother j hij]
      exact inTurn.numbered j m' hm'
  · intro j m' job' slot hm' hwork'
    rcases onMember_cases hm' with ⟨rfl, _, _, rfl⟩ | ⟨hij, hm'⟩
    · cases hwork'
      refine ⟨es, ?_⟩
      rw [since_snoc]
      simp [Event.opens]
    · obtain ⟨past, hpast⟩ := inTurn.asked j m' job' slot hm' hwork'
      refine ⟨past, ?_⟩
      rw [since_snoc, if_neg (by simpa [Event.opens] using Ne.symm hij)]
      conv_lhs => rw [hpast]
      simp

theorem InTurn.sent {target : Target} {k : Key} {status : Status} {act : Action}
    (inTurn : s.InTurn es) : ((s.enter target k status).onMember i fun m =>
      { m with inbox := m.inbox.push ⟨s.calls.length, act, k⟩ }).InTurn es := by
  have hlength : (s.enter target k status).calls.length = s.calls.length + 1 := by simp [enter]
  have hcases : ∀ (j : Nat) m', ((s.enter target k status).onMember i fun m =>
      { m with inbox := m.inbox.push ⟨s.calls.length, act, k⟩ }).members[j]? = some m' →
      ∃ m, s.members[j]? = some m ∧ m'.work = m.work ∧
        (m'.inbox.entries = m.inbox.entries ∨
          m'.inbox.entries = m.inbox.entries ++ [⟨s.calls.length, act, k⟩]) := by
    intro j m' hm'
    rcases onMember_cases hm' with ⟨rfl, m, hm, rfl⟩ | ⟨_, hm'⟩
    · exact ⟨m, hm, rfl, Or.inr rfl⟩
    · exact ⟨m', hm', rfl, Or.inl rfl⟩
  refine ⟨?_, ?_, ?_⟩
  · intro j m' hm'
    obtain ⟨m, hm, _, hentries | hentries⟩ := hcases j m' hm'
    · rw [hentries]
      exact inTurn.rising j m hm
    · rw [hentries, List.map_append, ← List.append_assoc, List.pairwise_append]
      refine ⟨inTurn.rising j m hm, List.pairwise_singleton _ _, ?_⟩
      intro c hc c' hc'
      obtain rfl := List.mem_singleton.mp hc'
      exact inTurn.numbered j m hm c hc
  · intro j m' hm' c hc
    rw [calls_onMember, hlength]
    obtain ⟨m, hm, _, hentries | hentries⟩ := hcases j m' hm'
    · rw [hentries] at hc
      have := inTurn.numbered j m hm c hc
      omega
    · rw [hentries, List.map_append, ← List.append_assoc] at hc
      rcases List.mem_append.mp hc with hc | hc
      · have := inTurn.numbered j m hm c hc
        omega
      · rw [List.mem_singleton.mp hc]
        exact Nat.lt_succ_self _
  · intro j m' job slot hm' hwork
    obtain ⟨m, hm, hsame, _⟩ := hcases j m' hm'
    exact inTurn.asked j m job slot hm (hsame ▸ hwork)

end Cluster

end Custody
