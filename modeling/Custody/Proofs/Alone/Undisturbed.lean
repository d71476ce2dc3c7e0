import Custody.Proofs.Alone.Mirror
import Custody.Proofs.Coherence.Quiescent
import Custody.Proofs.Order.Told

/-!
# A client that shares no key

Whatever the others do to each other, a client whose keys nobody else uses is never parked, answers
all its actions, and gives the replies that it would give alone. Each step keeps the two clients
side by side, the one in the cluster and the one with a store to itself.
-/

namespace Custody.Cluster

/-- Client `i`, now `m`, has replied as one that is alone with the keys `mine`, and while the store
runs the two are still side by side. -/
structure Attuned (mine : Key → Prop) (s : Cluster) (es : List Event) (i : Nat) (m : Member) :
    Prop where
  replies : (repliesOf es i).map (fun x => some x.2) = (Solo.after (answeredBy es i)).2
  unparked : ∀ r d, .served r (.parked d) ∈ es → r.who ≠ .client i
  mirrors : s.keeper.running = true → s.Mirrors mine i (Solo.after (answeredBy es i)).1 m

variable {setup : Setup} {s t : Cluster} {labels : List Label} {l : Label} {es now : List Event}
  {mine : Key → Prop} {i : Nat} {m m' : Member} {job : Job} {r : ClientReply}

/-- A step in which the client answers nothing and the store decides nothing. -/
theorem Attuned.elsewhere (attuned : Attuned mine s es i m) (helse : ∀ e ∈ now, e.Elsewhere i)
    (hmirrors : t.keeper.running = true → t.Mirrors mine i (Solo.after (answeredBy es i)).1 m') :
    Attuned mine t (es ++ now) i m' where
  replies := by
    rw [answeredBy_of_elsewhere helse, repliesOf_append, repliesOf_of_elsewhere helse,
      List.append_nil, attuned.replies]
  unparked r d hserved := by
    rcases List.mem_append.mp hserved with hserved | hserved
    · exact attuned.unparked r d hserved
    · exact (helse _ hserved).elim
  mirrors := by
    rw [answeredBy_of_elsewhere helse]
    exact hmirrors

theorem Attuned.answered (attuned : Attuned mine s es i m)
    (hreply : ((Solo.after (answeredBy es i)).1.perform job.key job.action).2 = some r)
    (hmirrors : t.keeper.running = true →
      t.Mirrors mine i ((Solo.after (answeredBy es i)).1.perform job.key job.action).1 m') :
    Attuned mine t (es ++ [.answered i job r]) i m' where
  replies := by
    rw [answeredBy_answered, Solo.after_snoc, repliesOf_append, repliesOf_answered, if_pos rfl,
      List.map_append, attuned.replies, hreply]
    rfl
  unparked q d hserved := by
    rcases List.mem_append.mp hserved with hserved | hserved
    · exact attuned.unparked q d hserved
    · cases List.mem_singleton.mp hserved
  mirrors := by
    rw [answeredBy_answered, Solo.after_snoc]
    exact hmirrors

theorem Attuned.served {q : Request Requester} (attuned : Attuned mine s es i m)
    (apart : s.scene.Apart mine i) (hrun : s.keeper.running = true)
    (hqueue : s.requests = q :: t.requests)
    (hstore : t.keeper.store = (s.keeper.store.handle s.isPresent q).1) :
    Attuned mine t (es ++ [.served q (s.keeper.store.handle s.isPresent q).2]) i
      (m.hear ((s.keeper.store.handle s.isPresent q).2.fateOf q.who (.client i))) := by
  have mirrors := attuned.mirrors hrun
  obtain ⟨hnext, hunparked⟩ : t.Mirrors mine i (Solo.after (answeredBy es i)).1
        (m.hear ((s.keeper.store.handle s.isPresent q).2.fateOf q.who (.client i))) ∧
      ∀ d, (s.keeper.store.handle s.isPresent q).2 = .parked d → q.who ≠ .client i := by
    have hmine : mine q.key ↔ q.who = .client i :=
      apart.asked q (Scene.mem_queue (a := s.scene) hqueue).1
    by_cases hwho : q.who = .client i
    · obtain ⟨registers, read, tracks⟩ := Solo.tracks_after (answeredBy es i)
      have hsent : s.sentBy (.client i) = q :: t.sentBy (.client i) := by
        rw [sentBy, hqueue, List.filter_cons_of_pos (by simp [hwho])]
        rfl
      obtain ⟨hnext, hanswered⟩ := mirrors.serve_own tracks hsent hstore
      exact ⟨hnext, fun d hd => absurd hd (hanswered d)⟩
    · have hsent : t.sentBy (.client i) = s.sentBy (.client i) := by
        rw [sentBy, sentBy, hqueue, List.filter_cons_of_neg (by simpa using hwho)]
      have hkey : ¬ mine q.key := fun hk => hwho (hmine.mp hk)
      have hunheard : (s.keeper.store.handle s.isPresent q).2.fateOf q.who (.client i) = none :=
        Store.unheard_of_unconcerned hwho fun hwaits =>
          hkey ((apart.parked q.key _ hwaits).mpr rfl)
      rw [hunheard, Member.hear_none]
      exact ⟨mirrors.serve_other hkey hsent hstore, fun _ _ => hwho⟩
  refine ⟨?_, fun r d hserved => ?_, ?_⟩
  · rw [answeredBy_served, repliesOf_append, List.map_append, attuned.replies]
    exact List.append_nil _
  · rcases List.mem_append.mp hserved with hserved | hserved
    · exact attuned.unparked r d hserved
    · obtain ⟨rfl, hd⟩ := Event.served.inj (List.mem_singleton.mp hserved)
      exact hunparked d hd.symm
  · rw [answeredBy_served]
    exact fun _ => hnext

/-- The job in hand is finished as it is alone. -/
theorem Attuned.finished {slot : Slot StoreReply} {answer : Option StoreReply} {cache : Cache}
    (attuned : Attuned mine s es i m) (hrun : s.keeper.running = true) (still : s.Still t i)
    (hwork : m.work = some ⟨job, slot⟩) (hanswer : slot.answer? = some answer)
    (hfinish : m.cache.finish job.key job.action answer = (cache, r)) :
    Attuned mine t (es ++ [.answered i job r]) i { m with cache, work := none } := by
  cases attuned.mirrors hrun with
  | idle hidle =>
    rw [hidle] at hwork
    cases hwork
  | asked job' hasked =>
    rw [hasked] at hwork
    cases hwork
    cases hanswer
  | told job' a htold hstart hreply hsent shows =>
    rw [htold] at hwork
    cases hwork
    cases hanswer
    have hdone := Solo.perform_asked hstart hreply hfinish
    refine attuned.answered (by rw [hdone]) fun _ => ?_
    rw [hdone]
    exact .idle rfl (fun _ => rfl) (still.sent.trans hsent) (still.store ▸ shows)

/-- One step keeps the client in tune, unless it is killed. A store that has stopped has outlived
its clients, and these have nothing in hand. -/
theorem attuned_step (fares : s.Fares t i m l now m')
    (houtlived : s.keeper.running = false → m.running = false)
    (hstopped : m.running = false → m.work = none)
    (apart : s.keeper.running = true → s.scene.Apart mine i)
    (hmine : ∀ job ∈ m.inbox.entries, mine job.key) (hkill : l ≠ .act (.killClient i))
    (attuned : Attuned mine s es i m) : Attuned mine t (es ++ now) i m' := by
  have hkeeper : m.running = true → s.keeper.running = true := by
    intro hrun
    by_contra hkeeper
    simp [houtlived (by simpa using hkeeper)] at hrun
  cases fares with
  | kept handle still hspares hhandle helse =>
    exact attuned.elsewhere helse fun hrun =>
      (attuned.mirrors (still.running ▸ hrun)).congr still rfl rfl fun h => h
  | called a manner k still =>
    exact attuned.elsewhere elsewhere_nil fun hrun =>
      (attuned.mirrors (still.running ▸ hrun)).congr still rfl rfl fun h => h
  | withdrew c call a manner still =>
    exact attuned.elsewhere elsewhere_nil fun hrun =>
      (attuned.mirrors (still.running ▸ hrun)).congr still rfl rfl fun h => h
  | served q hrun hqueue hstays hstore => exact attuned.served (apart hrun) hrun hqueue hstore
  | settled job rest cache r still hrun hidle hentries hstart =>
    obtain ⟨hcache, hsent, shows⟩ := (attuned.mirrors (hkeeper hrun)).of_idle hidle
    have hdone := Solo.perform_settled (hcache hrun ▸ hstart)
    refine attuned.answered (by rw [hdone]) fun _ => ?_
    rw [hdone]
    exact .idle hidle (fun _ => rfl) (still.sent.trans hsent) (still.store ▸ shows)
  | asked job rest cache hrun hidle hentries hstart hkeeper hstays hstore hsent =>
    obtain ⟨hcache, hnone, shows⟩ := (attuned.mirrors hkeeper).of_idle hidle
    have htaken : answeredBy (es ++ [.asked i job]) i = answeredBy es i := by
      simp [answeredBy, repliesOf]
    refine ⟨?_, fun r d hserved => ?_, fun _ => ?_⟩
    · rw [htaken, ← attuned.replies, repliesOf_append, List.map_append]
      exact List.append_nil _
    · rcases List.mem_append.mp hserved with hserved | hserved
      · exact attuned.unparked r d hserved
      · cases List.mem_singleton.mp hserved
    · rw [htaken]
      refine .asked job rfl (hmine job (hentries ▸ List.mem_cons_self)) (hcache hrun ▸ hstart) ?_
        (hstore ▸ shows)
      rw [hsent, hnone, List.nil_append]
  | refused job rest cache last r still hrun hidle hentries hstart hstops =>
    exact absurd (hkeeper hrun) (by simp [hstops])
  | finished job slot answer cache r still hwork hanswer hfinish =>
    have hrun : m.running = true := by
      by_contra hrun
      simp [hstopped (by simpa using hrun)] at hwork
    exact attuned.finished (hkeeper hrun) still hwork hanswer hfinish
  | left still hidle hentries hhandle =>
    refine attuned.elsewhere (elsewhere_one trivial) fun hrun => ?_
    obtain ⟨_, hsent, shows⟩ := (attuned.mirrors (still.running ▸ hrun)).of_idle hidle
    exact .idle rfl (fun h => absurd h Bool.false_ne_true) (still.sent.trans hsent)
      (still.store ▸ shows)
  | killed => exact absurd rfl hkill
  | bereft f k hspares hhalt helse =>
    refine attuned.elsewhere helse fun hrun => ?_
    rw [hhalt] at hrun
    cases hrun

theorem attuned_run (h : (start setup).run labels = some (s, es))
    (parts : ∀ l ∈ labels, l.Parts mine i) (hstore : .act .killStore ∉ labels)
    (hclient : .act (.killClient i) ∉ labels) (hm : s.members[i]? = some m) :
    Attuned mine s es i m := by
  refine history_induction (s := start setup) (P := fun labels s es =>
    (∀ l ∈ labels, l.Parts mine i) → .act .killStore ∉ labels → .act (.killClient i) ∉ labels →
      ∀ m, s.members[i]? = some m → Attuned mine s es i m) ?_ ?_ h parts hstore hclient m hm
  · intro _ _ _ m hm
    simp only [start, List.getElem?_map, Option.map_eq_some_iff] at hm
    obtain ⟨client, _, rfl⟩ := hm
    exact ⟨rfl, fun _ _ h => (by cases h),
      fun _ => .idle rfl (fun _ => rfl) rfl fun k _ => Store.shows_empty⟩
  · intro past u before l t now hpast ih hstep parts hstore hclient m' hm'
    obtain ⟨hstore, _⟩ := notMem_snoc hstore
    obtain ⟨hclient, hlast⟩ := notMem_snoc hclient
    have parts' : ∀ l ∈ past, l.Parts mine i := fun l' hl' => parts l' (List.mem_append_left _ hl')
    obtain ⟨m, hm, fares⟩ := fares_before hstep hm'
    have attended := attended_of_run hpast hstore
    refine attuned_step fares (fun hstops => attended.outlived hstops i m hm)
      (attended.orderly i m hm).1 (apart_run hpast parts' hstore) ?_ hlast
      (ih parts' hstore hclient m hm)
    exact fun job hjob =>
      (parts_of_line hpast parts' hm (List.mem_append_right _ hjob)).mpr rfl

/-- In a quiescent cluster the client has nothing in hand: its request would be served, and its
answer would be heard. -/
theorem Mirrors.idle_of_quiescent {solo : Solo} (mirrors : s.Mirrors mine i solo m)
    (hrun : s.keeper.running = true) (hquiet : s.Quiescent) (hm : s.members[i]? = some m) :
    m.work = none := by
  cases mirrors with
  | idle hidle => exact hidle
  | asked job hwork hmine hstart hsent =>
    have hempty : s.requests = [] := by
      rw [requests, entries_of_serve hrun (hquiet .serve (by simp))]
      rfl
    rw [sentBy, hempty] at hsent
    cases hsent
  | told job answer hwork =>
    rcases slot_of_resume hm hwork (hquiet (.resume i) (by simp)) with hslot | hslot <;> cases hslot

/-- The client has done what it was to do. -/
theorem answeredBy_of_quiescent (h : (start setup).run labels = some (s, es))
    (hclient : .act (.killClient i) ∉ labels) (hm : s.members[i]? = some m)
    (hidle : m.work = none) (hquiet : s.Quiescent) :
    answeredBy es i = s.agenda i ((start setup).skipped i labels) ∧ m.inbox.entries = [] := by
  have line := inLine_run h hm
  have hentries : m.inbox.entries = [] := by
    cases hrun : m.running with
    | true => exact entries_of_begin hm hrun hidle (hquiet (.begin i) nofun)
    | false => exact (line.stopped hrun).2
  have hall := line.all (Or.inr hclient)
  rw [line.begun (Or.inr hclient), Member.current, hidle, hentries] at hall
  simp only [Option.toList_none, List.map_nil, List.append_nil] at hall
  exact ⟨hall, hentries⟩

/-- In a quiescent cluster each of its callers has gone away or has the reply. -/
theorem told_of_quiescent (h : (start setup).run labels = some (s, es))
    (hclient : .act (.killClient i) ∉ labels) (hm : s.members[i]? = some m)
    (hidle : m.work = none) (hquiet : s.Quiescent) {c : Nat} {call : Call} {a : Action}
    {manner : Manner} (hcall : s.calls[c]? = some call)
    (htarget : call.target = .client i a manner) :
    call.status = .cancelled ∨ ∃ job r, (job, r) ∈ repliesOf es i ∧ job.call = c ∧
      call.status.receipt = .full (.client r) := by
  cases heeded_run h hclient hcall htarget with
  | gone hgone => exact Or.inl hgone
  | waits hopen =>
    obtain ⟨m', hm', _, hjob⟩ :=
      (onRecord_run (onRecord_start setup) h).carried c call i a manner hcall htarget hopen
    obtain rfl := Option.some.inj (hm.symm.trans hm')
    rw [Member.jobs_eq, Member.current, hidle,
      (answeredBy_of_quiescent h hclient hm hidle hquiet).2] at hjob
    cases hjob
  | told job r given hjob htold => exact Or.inr ⟨job, r, given, hjob, htold⟩

theorem Attuned.idle_of_quiescent (attuned : Attuned mine s es i m)
    (attended : Attended Rules.lenient s) (hm : s.members[i]? = some m) (hquiet : s.Quiescent) :
    m.work = none := by
  cases hrun : s.keeper.running with
  | true => exact (attuned.mirrors hrun).idle_of_quiescent hrun hquiet hm
  | false => exact (attended.orderly i m hm).1 (attended.outlived hrun i m hm)

theorem Attuned.cache_eq (attuned : Attuned mine s es i m) (attended : Attended Rules.lenient s)
    (hm : s.members[i]? = some m) (hidle : m.work = none) (hrun : m.running = true) :
    m.cache = (Solo.after (answeredBy es i)).1.cache := by
  have hkeeper : s.keeper.running = true := by
    by_contra hkeeper
    simp [attended.outlived (by simpa using hkeeper) i m hm] at hrun
  exact ((attuned.mirrors hkeeper).of_idle hidle).1 hrun

/-- `i` is any client that is not killed, and the others are called, closed and killed in any way.
The client is never parked. In a quiescent cluster it has answered all actions that got into its
queue, and each of its callers has gone away or has the reply. The replies, the client's cache, and
the values and the ownership of its keys are those of a client alone that does the same. -/
theorem undisturbed_on_own_keys (h : (start setup).run labels = some (s, es))
    (own : OwnKeys labels i) (hstore : .act .killStore ∉ labels)
    (hclient : .act (.killClient i) ∉ labels) (hm : s.members[i]? = some m) :
    (∀ r d, .served r (.parked d) ∈ es → r.who ≠ .client i) ∧
    (s.Quiescent → m.work = none ∧
      answeredBy es i = s.agenda i ((start setup).skipped i labels) ∧
      ∀ (c : Nat) call a manner, s.calls[c]? = some call → call.target = .client i a manner →
        call.status = .cancelled ∨ ∃ job r, (job, r) ∈ repliesOf es i ∧ job.call = c ∧
          call.status.receipt = .full (.client r)) ∧
    (repliesOf es i).map (fun x => some x.2) = (Solo.after (answeredBy es i)).2 ∧
    (m.work = none → m.running = true → m.cache = (Solo.after (answeredBy es i)).1.cache) ∧
    (m.work = none → s.keeper.running = true → ∀ k, (k, some i) ∈ uses labels →
      s.keeper.store.value k = (Solo.after (answeredBy es i)).1.store.value k ∧
      s.keeper.store.isOwned k = (Solo.after (answeredBy es i)).1.store.isOwned k) := by
  have attended := attended_of_run h hstore
  have attuned := attuned_run h own.parts hstore hclient hm
  refine ⟨attuned.unparked, fun hquiet => ?_, attuned.replies,
    fun hidle hrun => attuned.cache_eq attended hm hidle hrun, fun hidle hrun k hk => ?_⟩
  · have hidle := attuned.idle_of_quiescent attended hm hquiet
    exact ⟨hidle, (answeredBy_of_quiescent h hclient hm hidle hquiet).1,
      fun c call a manner hcall htarget =>
        told_of_quiescent h hclient hm hidle hquiet hcall htarget⟩
  · have shows := ((attuned.mirrors hrun).of_idle hidle).2.2 k hk
    exact ⟨shows.value, shows.owned⟩

/-- Client 1 owns "k", client 2 waits for it until a caller of the store takes its place, and then
client 1 is killed. Meanwhile client 0 gets "l", puts it back and gets it again. -/
def crowdedLabels : List Label :=
  [.act (.call (.client 0 .get .attached) "l"), .act (.call (.client 1 .get .attached) "k"),
    .act (.call (.client 2 .get .attached) "k"), .move (.begin 1), .move (.begin 0),
    .move (.begin 2), .move .serve, .move (.resume 1), .move .serve, .move .serve,
    .act (.call (.store .read) "k"), .move (.resume 0), .move .serve,
    .act (.call (.client 0 (.put 5) .attached) "l"), .move (.begin 0), .act (.killClient 1),
    .act (.call (.client 0 .get (.dispatched true)) "l"), .move .serve, .move (.resume 2),
    .move (.resume 0), .move (.begin 0), .move .serve, .move (.resume 0)]

theorem undisturbed_on_own_keys_of_crowded : ∃ s es m,
    (start ⟨[⟨"a", 1⟩, ⟨"b", 1⟩, ⟨"c", 1⟩], 1⟩).run crowdedLabels = some (s, es) ∧
      s.members[0]? = some m ∧ s.Quiescent ∧
      .served ⟨.read, "k", .caller 3⟩ (.parked (some (.client 2))) ∈ es ∧
      (∀ r d, .served r (.parked d) ∈ es → r.who ≠ .client 0) ∧
      answeredBy es 0 = [⟨0, .get, "l"⟩, ⟨4, .put 5, "l"⟩, ⟨5, .get, "l"⟩] ∧
      (repliesOf es 0).map (fun x => some x.2) = (Solo.after (answeredBy es 0)).2 ∧
      m.cache = (Solo.after (answeredBy es 0)).1.cache ∧
      s.keeper.store.value "l" = (Solo.after (answeredBy es 0)).1.store.value "l" := by
  obtain ⟨s, es, m, h, hm, hquiet, hdisplaced, hskipped, hagenda, hrun, hkeeper⟩ : ∃ s es m,
      (start ⟨[⟨"a", 1⟩, ⟨"b", 1⟩, ⟨"c", 1⟩], 1⟩).run crowdedLabels = some (s, es) ∧
        s.members[0]? = some m ∧ s.Quiescent ∧
        .served ⟨.read, "k", .caller 3⟩ (.parked (some (.client 2))) ∈ es ∧
        (start ⟨[⟨"a", 1⟩, ⟨"b", 1⟩, ⟨"c", 1⟩], 1⟩).skipped 0 crowdedLabels = [] ∧
        s.agenda 0 [] = [⟨0, .get, "l"⟩, ⟨4, .put 5, "l"⟩, ⟨5, .get, "l"⟩] ∧
        m.running = true ∧ s.keeper.running = true := by
    exact ⟨_, _, _, rfl, rfl, quiescent_of_moves rfl, by decide, rfl, rfl, rfl, rfl⟩
  obtain ⟨hunparked, hdone, hreplies, hcache, hstore⟩ :=
    undisturbed_on_own_keys h (by decide) (by decide) (by decide) hm
  obtain ⟨hidle, hall, _⟩ := hdone hquiet
  rw [hskipped, hagenda] at hall
  exact ⟨s, es, m, h, hm, hquiet, hdisplaced, hunparked, hall, hreplies, hcache hidle hrun,
    (hstore hidle hkeeper "l" (by decide)).1⟩

end Custody.Cluster
