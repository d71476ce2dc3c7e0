import Custody.Proofs.Order.Issued

/-!
# First come, first served

What a client has answered, what it has in hand and what is in its inbox, in this order, are the
actions issued to it in the order in which they were issued; only those are missing whose callers
went away before they got into the queue. Every step keeps this. A client that was killed leaves the
rest undone, but it has done nothing out of turn.
-/

namespace Custody

/-- The job in hand. -/
def Member.current (m : Member) : List Job := m.work.toList.map (·.job)

theorem Member.jobs_eq (m : Member) : m.jobs = m.current ++ m.inbox.entries := rfl

theorem Member.current_hear (m : Member) (f : Option Fate) : (m.hear f).current = m.current := by
  obtain ⟨name, inbox, handle, running, cache, work⟩ := m
  cases work <;> rfl

theorem Member.hear_idle {m : Member} {f : Option Fate} (hidle : m.work = none) :
    (m.hear f).work = none := by
  rw [Member.hear, hidle]
  rfl

section

variable {es now : List Event} {i : Nat} {job : Job} {r : ClientReply}

theorem takenUp_append (es now : List Event) (i : Nat) :
    takenUp (es ++ now) i = now.foldl (Event.takeUp i) (takenUp es i) :=
  List.foldl_append

theorem answeredBy_append (es now : List Event) (i : Nat) :
    answeredBy (es ++ now) i = answeredBy es i ++ answeredBy now i := by
  rw [answeredBy, repliesOf_append, List.map_append]
  rfl

theorem takenUp_of_elsewhere (h : ∀ e ∈ now, e.Elsewhere i) :
    takenUp (es ++ now) i = takenUp es i := by
  rw [takenUp_append]
  induction now with
  | nil => rfl
  | cons e rest ih =>
    have hstep : Event.takeUp i (takenUp es i) e = takenUp es i := by
      have he := h e List.mem_cons_self
      cases e with
      | asked j job => exact if_neg he
      | answered j job r => exact if_neg fun hj => he hj.1
      | _ => rfl
    rw [List.foldl_cons, hstep]
    exact ih fun e he => h e (List.mem_cons_of_mem _ he)

theorem answeredBy_of_elsewhere (h : ∀ e ∈ now, e.Elsewhere i) :
    answeredBy (es ++ now) i = answeredBy es i := by
  rw [answeredBy_append, answeredBy, answeredBy, repliesOf_of_elsewhere h]
  exact List.append_nil _

theorem takenUp_served {q : Request Requester} {v : Verdict Requester} :
    takenUp (es ++ [.served q v]) i = takenUp es i := by
  rw [takenUp_append]
  rfl

theorem answeredBy_served {q : Request Requester} {v : Verdict Requester} :
    answeredBy (es ++ [.served q v]) i = answeredBy es i := by
  rw [answeredBy_append]
  exact List.append_nil _

theorem answeredBy_answered :
    answeredBy (es ++ [.answered i job r]) i = answeredBy es i ++ [job] := by
  rw [answeredBy_append]
  simp [answeredBy, repliesOf]

/-- A job that is answered without having been asked about is taken up only then. -/
theorem takenUp_answered (hnew : job ∉ takenUp es i) :
    takenUp (es ++ [.answered i job r]) i = takenUp es i ++ [job] := by
  have hlast : (takenUp es i).getLast? ≠ some job := fun h => hnew (List.mem_of_getLast? h)
  rw [takenUp_append]
  exact if_pos ⟨rfl, hlast⟩

theorem takenUp_finished (hlast : (takenUp es i).getLast? = some job) :
    takenUp (es ++ [.answered i job r]) i = takenUp es i := by
  rw [takenUp_append]
  exact if_neg fun h => h.2 hlast

theorem takenUp_asked : takenUp (es ++ [.asked i job]) i = takenUp es i ++ [job] := by
  rw [takenUp_append]
  exact if_pos rfl

end

/-- Client `i`, which is now `m`, has followed the agenda. One that was never killed has stopped, if
at all, with nobody left to call it. -/
structure InLine (m : Member) (es : List Event) (i : Nat) (agenda : List Job) (unkilled : Prop) :
    Prop where
  stopped : m.running = false → m.work = none ∧ m.inbox.entries = []
  retired : unkilled → m.running = false → m.handle = false
  begun : m.running = true ∨ unkilled → takenUp es i = answeredBy es i ++ m.current
  first : answeredBy es i <+: takenUp es i
  listed : takenUp es i ++ m.inbox.entries <+: agenda
  all : m.running = true ∨ unkilled → takenUp es i ++ m.inbox.entries = agenda

namespace InLine

variable {m m' : Member} {es now : List Event} {i c : Nat} {agenda extra : List Job}
  {unkilled still : Prop} {job : Job} {rest : List Job} {r : ClientReply}

/-- While it runs, nothing is missing. -/
theorem of_running (hrun : m.running = true) (hbegun : takenUp es i = answeredBy es i ++ m.current)
    (hall : takenUp es i ++ m.inbox.entries = agenda) : InLine m es i agenda unkilled where
  stopped h := absurd hrun (by simp [h])
  retired _ h := absurd hrun (by simp [h])
  begun _ := hbegun
  first := by
    rw [hbegun]
    exact List.prefix_append _ _
  listed := by
    rw [hall]
  all _ := hall

theorem idle (line : InLine m es i agenda unkilled) (hrun : m.running = true)
    (hidle : m.work = none) : takenUp es i = answeredBy es i := by
  have h := line.begun (Or.inl hrun)
  rw [Member.current, hidle] at h
  simpa using h

theorem pairwise (line : InLine m es i agenda unkilled)
    (hagenda : agenda.Pairwise fun a b => a.call < b.call) :
    (takenUp es i ++ m.inbox.entries).Pairwise fun a b => a.call < b.call :=
  hagenda.sublist line.listed.sublist

/-- Somebody else's step. The agenda grows only if the client has stopped. -/
theorem stay (line : InLine m es i agenda unkilled) (hstill : still → unkilled)
    (hcurrent : m'.current = m.current) (hidle : m.work = none → m'.work = none)
    (hentries : m'.inbox.entries = m.inbox.entries) (hrun : m'.running = m.running)
    (hhandle : m'.handle = true → m.handle = true) (htaken : takenUp (es ++ now) i = takenUp es i)
    (hanswered : answeredBy (es ++ now) i = answeredBy es i)
    (hextra : m.running = true ∨ unkilled → extra = []) :
    InLine m' (es ++ now) i (agenda ++ extra) still where
  stopped h := by
    rw [hentries]
    obtain ⟨hnone, hempty⟩ := line.stopped (hrun ▸ h)
    exact ⟨hidle hnone, hempty⟩
  retired h hstopped := by
    have hgone := line.retired (hstill h) (hrun ▸ hstopped)
    exact Bool.eq_false_iff.mpr fun hh => absurd (hhandle hh) (by simp [hgone])
  begun h := by
    rw [htaken, hanswered, hcurrent]
    exact line.begun (hrun ▸ h.imp id hstill)
  first := by
    rw [htaken, hanswered]
    exact line.first
  listed := by
    rw [htaken, hentries]
    exact line.listed.trans (List.prefix_append _ _)
  all h := by
    have hlive : m.running = true ∨ unkilled := hrun ▸ h.imp id hstill
    rw [htaken, hentries, hextra hlive, List.append_nil]
    exact line.all hlive

/-- A step of somebody else that issues nothing. -/
theorem same (line : InLine m es i agenda unkilled) (hstill : still → unkilled)
    (hcurrent : m'.current = m.current) (hidle : m.work = none → m'.work = none)
    (hentries : m'.inbox.entries = m.inbox.entries) (hrun : m'.running = m.running)
    (hhandle : m'.handle = true → m.handle = true) : InLine m' es i agenda still := by
  have hstay : InLine m' (es ++ []) i (agenda ++ []) still :=
    line.stay hstill hcurrent hidle hentries hrun hhandle (by rw [List.append_nil])
      (by rw [List.append_nil]) fun _ => rfl
  rwa [List.append_nil, List.append_nil] at hstay

/-- A new action goes to the end of the line. -/
theorem push (line : InLine m es i agenda unkilled) (hrun : m.running = true) (job : Job) :
    InLine { m with inbox := m.inbox.push job } es i (agenda ++ [job]) still := by
  refine of_running hrun (line.begun (Or.inl hrun)) ?_
  rw [← line.all (Or.inl hrun)]
  exact (List.append_assoc _ _ _).symm

/-- An action that is taken back from outside the queue leaves the line. -/
theorem withdraw (line : InLine m es i agenda unkilled)
    (hagenda : agenda.Pairwise fun a b => a.call < b.call)
    (hblocked : ∃ job ∈ m.inbox.blocked, job.call = c) :
    InLine { m with inbox := m.inbox.withdraw fun job => job.call == c } es i
      (agenda.filter fun job => !(job.call == c)) still := by
  obtain ⟨other, hother, hcall⟩ := hblocked
  have hrun : m.running = true := by
    by_contra hstopped
    have hempty := (line.stopped (by simpa using hstopped)).2
    simp [Inbox.blocked, hempty] at hother
  have hsplit : m.inbox.entries = m.inbox.queued ++ m.inbox.blocked :=
    (List.take_append_drop _ _).symm
  have hline := line.pairwise hagenda
  rw [hsplit, ← List.append_assoc] at hline
  -- whoever is before it in line has an earlier call
  have hkeep : (takenUp es i ++ m.inbox.queued).filter (fun job => !(job.call == c)) =
      takenUp es i ++ m.inbox.queued := by
    rw [List.filter_eq_self]
    intro job hjob
    have hless := (List.pairwise_append.mp hline).2.2 job hjob other hother
    rw [hcall] at hless
    simpa using Nat.ne_of_lt hless
  refine of_running hrun (line.begun (Or.inl hrun)) ?_
  rw [← line.all (Or.inl hrun), hsplit, ← List.append_assoc, List.filter_append, hkeep,
    List.append_assoc]
  rfl

/-- The first job of the inbox is taken up and answered at once. -/
theorem settle (line : InLine m es i agenda unkilled)
    (hagenda : agenda.Pairwise fun a b => a.call < b.call) (hrun : m.running = true)
    (hidle : m.work = none) (hentries : m.inbox.entries = job :: rest) (hrun' : m'.running = true)
    (hidle' : m'.work = none) (hentries' : m'.inbox.entries = rest) :
    InLine m' (es ++ [.answered i job r]) i agenda still := by
  have hnew : job ∉ takenUp es i := by
    intro hjob
    have hline := line.pairwise hagenda
    rw [hentries] at hline
    exact Nat.lt_irrefl _
      ((List.pairwise_append.mp hline).2.2 job hjob job List.mem_cons_self)
  refine of_running hrun' ?_ ?_
  · rw [takenUp_answered hnew, answeredBy_answered, line.idle hrun hidle, Member.current, hidle']
    exact (List.append_nil _).symm
  · rw [takenUp_answered hnew, hentries', ← line.all (Or.inl hrun), hentries, List.append_assoc]
    rfl

theorem ask {slot : Slot StoreReply} (line : InLine m es i agenda unkilled)
    (hrun : m.running = true) (hidle : m.work = none) (hentries : m.inbox.entries = job :: rest)
    (hrun' : m'.running = true) (hwork' : m'.work = some ⟨job, slot⟩)
    (hentries' : m'.inbox.entries = rest) : InLine m' (es ++ [.asked i job]) i agenda still := by
  refine of_running hrun' ?_ ?_
  · rw [takenUp_asked, answeredBy_append, line.idle hrun hidle, Member.current, hwork']
    simp [answeredBy, repliesOf]
  · rw [takenUp_asked, hentries', ← line.all (Or.inl hrun), hentries, List.append_assoc]
    rfl

/-- The job in hand is answered. -/
theorem finish {slot : Slot StoreReply} {cache : Cache} (line : InLine m es i agenda unkilled)
    (hwork : m.work = some ⟨job, slot⟩) :
    InLine { m with cache, work := none } (es ++ [.answered i job r]) i agenda still := by
  have hrun : m.running = true := by
    by_contra hstopped
    rw [(line.stopped (by simpa using hstopped)).1] at hwork
    cases hwork
  have hbegun : takenUp es i = answeredBy es i ++ [job] := by
    rw [line.begun (Or.inl hrun), Member.current, hwork]
    rfl
  have hlast : (takenUp es i).getLast? = some job := by
    rw [hbegun]
    exact List.getLast?_concat
  refine of_running hrun ?_ ?_
  · rw [takenUp_finished hlast, answeredBy_answered, hbegun]
    exact (List.append_nil _).symm
  · rw [takenUp_finished hlast]
    exact line.all (Or.inl hrun)

/-- A client that stops leaves undone what it has in hand and in its inbox. -/
theorem halt (line : InLine m es i agenda unkilled)
    (htaken : takenUp (es ++ now) i = takenUp es i)
    (hanswered : answeredBy (es ++ now) i = answeredBy es i)
    (hdone : still → unkilled ∧ m.work = none ∧ m.inbox.entries = [] ∧ m.handle = false) :
    InLine m.halt (es ++ now) i agenda still where
  stopped _ := ⟨rfl, rfl⟩
  retired h _ := (hdone h).2.2.2
  begun h := by
    obtain ⟨hunkilled, hidle, _⟩ := hdone (h.resolve_left (by simp [Member.halt]))
    rw [htaken, hanswered, line.begun (Or.inr hunkilled), Member.current, hidle]
    rfl
  first := by
    rw [htaken, hanswered]
    exact line.first
  listed := by
    rw [htaken]
    exact List.IsPrefix.trans (by simp [Member.halt, Inbox.clear]) line.listed
  all h := by
    obtain ⟨hunkilled, _, hempty, _⟩ := hdone (h.resolve_left (by simp [Member.halt]))
    rw [htaken, ← line.all (Or.inr hunkilled), hempty]
    rfl

end InLine

namespace Cluster

variable {setup : Setup} {s t : Cluster} {l : Label} {labels : List Label} {es now : List Event}
  {i c : Nat} {m m' : Member} {gone : List Nat} {unkilled : Prop}

/-- As long as nobody goes away before its turn, the agenda grows at its end. -/
theorem agenda_step (h : s.step l = some (t, now)) (known : ∀ c ∈ gone, c < s.calls.length) :
    t.agenda i gone = s.agenda i gone ++ l.order s.calls.length i := by
  rw [agenda, agenda, issued_step h, List.filter_append]
  congr 1
  rw [List.filter_eq_self]
  intro job hjob
  have hcall : job.call = s.calls.length := by
    unfold Label.order at hjob
    split at hjob
    · split at hjob
      · rw [List.mem_singleton.mp hjob]
      · cases hjob
    · cases hjob
  have hnew : job.call ∉ gone := fun hmem => Nat.lt_irrefl _ (hcall ▸ known _ hmem)
  simpa using hnew

theorem isBlocked_iff (hm : s.members[i]? = some m) :
    s.isBlocked c i = true ↔ ∃ job ∈ m.inbox.blocked, job.call = c := by
  simp [isBlocked, hm]

/-- A label that spares the client takes nothing off its agenda. -/
theorem skips_of_spares (line : InLine m es i (s.agenda i gone) unkilled)
    (hm : s.members[i]? = some m) (hspares : s.Spares i m l) : s.skips i l = [] := by
  unfold skips
  split
  · rename_i c
    refine if_neg fun hboth => ?_
    obtain ⟨hpresent, hblocked⟩ := Bool.and_eq_true_iff.mp hboth
    obtain ⟨job, hjob, rfl⟩ := (isBlocked_iff hm).mp hblocked
    have hlisted : job ∈ s.agenda i gone :=
      line.listed.subset (List.mem_append_right _ (List.mem_of_mem_drop hjob))
    obtain ⟨call, manner, hcall, htarget, _⟩ := mem_issued.mp (mem_agenda.mp hlisted).1
    have hpending : call.isPending = true := by simpa [isPresent, hcall] using hpresent
    exact hspares call job.action manner hcall hpending htarget
  · rfl

theorem order_of_spares (line : InLine m es i (s.agenda i gone) unkilled)
    (hspares : s.Spares i m l) (hlive : m.running = true ∨ unkilled) (n : Nat) :
    l.order n i = [] := by
  unfold Label.order
  split
  · refine if_neg fun hj => ?_
    obtain ⟨hstopped, hhandle⟩ := hspares hj
    rcases hlive with hrun | hunkilled
    · rw [hrun] at hstopped
      cases hstopped
    · rw [line.retired hunkilled hstopped] at hhandle
      cases hhandle
  · rfl

/-- A member of a cluster after one more step is still in line. -/
theorem inLine_step (h : s.step l = some (t, now)) (hm : s.members[i]? = some m)
    (fares : s.Fares t i m l now m') (known : ∀ c ∈ gone, c < s.calls.length)
    (line : InLine m es i (s.agenda i gone) unkilled) :
    InLine m' (es ++ now) i (t.agenda i (gone ++ s.skips i l))
      (unkilled ∧ l ≠ .act (.killClient i)) := by
  have hagenda := agenda_pairwise s i gone
  have hnext := agenda_step (i := i) h known
  have hstill : unkilled ∧ l ≠ .act (.killClient i) → unkilled := And.left
  -- a step that skips nobody and issues nothing leaves the agenda as it is
  have hsame : s.skips i l = [] → l.order s.calls.length i = [] →
      t.agenda i (gone ++ s.skips i l) = s.agenda i gone := by
    intro hskips horder
    rw [hskips, List.append_nil, hnext, horder, List.append_nil]
  cases fares with
  | kept handle still hspares hhandle helse =>
    rw [skips_of_spares line hm hspares, List.append_nil, hnext]
    exact line.stay hstill rfl id rfl rfl hhandle (takenUp_of_elsewhere helse)
      (answeredBy_of_elsewhere helse) fun hlive => order_of_spares line hspares hlive _
  | called a manner k still hhandle hrun =>
    have hskips : s.skips i (.act (.call (.client i a manner) k)) = [] := rfl
    have horder : Label.order s.calls.length i (.act (.call (.client i a manner) k)) =
        [⟨s.calls.length, a, k⟩] := if_pos rfl
    rw [hskips, List.append_nil, List.append_nil, hnext, horder]
    exact line.push hrun _
  | withdrew c call a manner still hcall hpending htarget =>
    rw [List.append_nil]
    have hpresent : s.isPresent (.caller c) = true := by simp [isPresent, hcall, hpending]
    have horder : Label.order s.calls.length i (.act (.cancel c)) = [] := rfl
    by_cases hblocked : ∃ job ∈ m.inbox.blocked, job.call = c
    · have hskips : s.skips i (.act (.cancel c)) = [c] := by
        rw [skips, hpresent, (isBlocked_iff hm).mpr hblocked]
        rfl
      rw [hskips, agenda_snoc, hnext, horder, List.append_nil]
      exact line.withdraw hagenda hblocked
    · have hskips : s.skips i (.act (.cancel c)) = [] := by
        rw [skips, if_neg]
        simpa [isBlocked_iff hm, hpresent] using hblocked
      rw [hsame hskips horder]
      have hkept : (m.inbox.withdraw fun job => job.call == c) = m.inbox :=
        Inbox.withdraw_eq_self fun job hjob => by simpa using fun hc => hblocked ⟨job, hjob, hc⟩
      rw [hkept]
      exact line.same hstill rfl id rfl rfl id
  | served r hrun hqueue hstays hstore =>
    rw [hsame rfl rfl, ← List.append_nil (s.agenda i gone)]
    exact line.stay hstill (m.current_hear _) Member.hear_idle rfl rfl id takenUp_served
      answeredBy_served fun _ => rfl
  | settled job rest cache r still hrun hidle hentries hstart =>
    rw [hsame rfl rfl]
    exact line.settle hagenda hrun hidle hentries hrun hidle rfl
  | asked job rest cache hrun hidle hentries hstart hkeeper hstays hstore hsent =>
    rw [hsame rfl rfl]
    exact line.ask hrun hidle hentries hrun rfl rfl
  | refused job rest cache last r still hrun hidle hentries hstart hkeeper hfinish =>
    rw [hsame rfl rfl]
    exact line.settle hagenda hrun hidle hentries hrun rfl rfl
  | finished job slot answer cache r still hwork hanswer hfinish =>
    rw [hsame rfl rfl]
    exact line.finish hwork
  | left still hidle hentries hhandle =>
    rw [hsame rfl rfl]
    exact line.halt (takenUp_of_elsewhere (elsewhere_one trivial))
      (answeredBy_of_elsewhere (elsewhere_one trivial)) fun h => ⟨h.1, hidle, hentries, hhandle⟩
  | killed hrun hstays hstore hsent =>
    rw [hsame rfl rfl]
    exact line.halt (takenUp_of_elsewhere elsewhere_nil) (answeredBy_of_elsewhere elsewhere_nil)
      fun h => absurd rfl h.2
  | bereft f k hspares hkeeper helse =>
    rw [skips_of_spares line hm hspares, List.append_nil, hnext]
    exact line.stay hstill (m.current_hear f) Member.hear_idle rfl rfl id
      (takenUp_of_elsewhere helse) (answeredBy_of_elsewhere helse)
      fun hlive => order_of_spares line hspares hlive _

/-! ## Runs -/

theorem length_calls_step (h : s.step l = some (t, now)) : s.calls.length ≤ t.calls.length := by
  obtain ⟨_, _, _, _, hcalls⟩ | ⟨_, hagrees⟩ := calls_step h
  · rw [hcalls, List.length_append]
    exact Nat.le_add_right _ _
  · exact Nat.le_of_eq hagrees.length_eq

/-- Whoever goes away has made a call. -/
theorem skipped_known (h : (start setup).run labels = some (s, es)) :
    ∀ c ∈ (start setup).skipped i labels, c < s.calls.length := by
  refine history_induction (P := fun labels s _ =>
    ∀ c ∈ (start setup).skipped i labels, c < s.calls.length) nofun ?_ h
  intro past u es l t now hrun known hstep c hc
  rw [skipped_snoc hrun] at hc
  refine Nat.lt_of_lt_of_le ?_ (length_calls_step hstep)
  rcases List.mem_append.mp hc with hc | hc
  · exact known c hc
  · unfold skips at hc
    split at hc
    · split at hc
      · rename_i hboth
        rw [List.mem_singleton.mp hc]
        have hpresent := (Bool.and_eq_true_iff.mp hboth).1
        simp only [isPresent, Option.any_eq_true] at hpresent
        obtain ⟨call, hcall, _⟩ := hpresent
        exact (List.getElem?_eq_some_iff.mp hcall).1
      · cases hc
    · cases hc

theorem inLine_run (h : (start setup).run labels = some (s, es)) (hm : s.members[i]? = some m) :
    InLine m es i (s.agenda i ((start setup).skipped i labels))
      (.act (.killClient i) ∉ labels) := by
  refine history_induction (P := fun labels s es => ∀ m, s.members[i]? = some m →
    InLine m es i (s.agenda i ((start setup).skipped i labels)) (.act (.killClient i) ∉ labels))
    ?_ ?_ h m hm
  · intro m hm
    simp only [start, List.getElem?_map, Option.map_eq_some_iff] at hm
    obtain ⟨client, _, rfl⟩ := hm
    exact .of_running rfl rfl rfl
  · intro past u es l t now hrun ih hstep m' hm'
    obtain ⟨m, hm, fares⟩ := fares_before hstep hm'
    have hline := inLine_step hstep hm fares (skipped_known hrun) (ih m hm)
    rw [← skipped_snoc hrun] at hline
    have hunkilled : (.act (.killClient i) ∉ past ++ [l]) =
        (.act (.killClient i) ∉ past ∧ l ≠ .act (.killClient i)) := by
      simp [eq_comm]
    rw [hunkilled]
    exact hline

end Cluster

end Custody
