import Custody.Proofs.Coherence.Quiescent
import Custody.Proofs.Order.Errand
import Custody.Proofs.Order.Lane
import Custody.Proofs.Order.Refit

/-!
# Order, whatever the depth

A client performs and answers its actions in the order in which they were issued, with at most one
request open. When nothing can move, its oldest unfinished action is in hand, and the senders of
later ones stand outside only if the queue is full. Unless actors are killed or callers leave from
outside a queue, other depths change nothing: the same steps lead to the same events, the same
outcomes and the same states of the store.
-/

namespace Custody

namespace Cluster

/-- What client `i`, which is `m` and has a queue of the given depth, makes of its agenda. -/
structure KeepsOrder (s : Cluster) (es : List Event) (i : Nat) (m : Member) (agenda : List Job)
    (depth : Nat) : Prop where
  issued : agenda.Sublist (s.issued i)
  byCall : agenda.Pairwise fun a b => a.call < b.call
  answered : answeredBy es i <+: takenUp es i
  performed : takenUp es i <+: agenda
  complete : m.running = true →
    agenda = answeredBy es i ++ m.current ++ m.inbox.queued ++ m.inbox.blocked
  single : s.openRequests i ≤ 1
  busy : m.running = true → s.Quiescent →
    ∀ job rest, agenda = answeredBy es i ++ job :: rest → m.current = [job]
  queued : m.inbox.queued.length ≤ max depth 1
  blocked : ∀ c, s.isBlocked c i = true → m.inbox.queued.length = max depth 1

/-- Two clusters in which the same calls have come to the same, the store is in the same state, and
neither or both are at rest. -/
structure SameBut (s t : Cluster) : Prop where
  calls : t.calls = s.calls
  store : t.keeper.store = s.keeper.store
  running : t.keeper.running = s.keeper.running
  rest : t.atRest = s.atRest

variable {setup setup' : Setup} {s t : Cluster} {l : Label} {labels : List Label}
  {es now : List Event} {i : Nat} {m m' : Member}

theorem room_step (h : s.Fares t i m l now m') : m'.inbox.room = m.inbox.room := by
  cases h <;> rfl

/-- A queue keeps its depth. -/
theorem room_run (h : (start setup).run labels = some (s, es)) (hm : s.members[i]? = some m) :
    ∃ client, setup.clients[i]? = some client ∧ m.inbox.room = roomFor client.depth := by
  refine run_induction (A := fun _ => True) (P := fun s _ => ∀ m, s.members[i]? = some m →
    ∃ client, setup.clients[i]? = some client ∧ m.inbox.room = roomFor client.depth)
    ?_ (fun _ _ => trivial) [] ?_ h m hm
  · intro s past l t now _ ih hstep m' hm'
    obtain ⟨m, hm, fares⟩ := fares_before hstep hm'
    rw [room_step fares]
    exact ih m hm
  · intro m hm
    simp only [start, List.getElem?_map, Option.map_eq_some_iff] at hm
    obtain ⟨client, hclient, rfl⟩ := hm
    exact ⟨client, hclient, rfl⟩

/-- A sedate run has its match at any other depths at which it is sedate. -/
theorem sameBut_run (hnames : setup'.clients.map (·.name) = setup.clients.map (·.name))
    (hsedate : (start setup).sedate labels = true) (hsedate' : (start setup').sedate labels = true)
    (h : (start setup).run labels = some (s, es)) :
    ∃ t, (start setup').run labels = some (t, es) ∧ s.SameBut t := by
  rw [start_refit hnames] at hsedate' ⊢
  exact ⟨_, run_refit _ _ hsedate hsedate' h, rfl, rfl, rfl, atRest_refit _ _⟩

theorem keepsOrder_run (h : (start setup).run labels = some (s, es))
    (hm : s.members[i]? = some m) {client : ClientSetup}
    (hclient : setup.clients[i]? = some client) :
    s.KeepsOrder es i m (s.agenda i ((start setup).skipped i labels)) client.depth := by
  have line := inLine_run h hm
  have hroom : m.inbox.room = max client.depth 1 := by
    obtain ⟨other, hother, hroom⟩ := room_run h hm
    obtain rfl := Option.some.inj (hclient.symm.trans hother)
    exact hroom
  obtain ⟨o, errand, _⟩ := oneErrand_run h hm
  have hsplit : m.inbox.entries = m.inbox.queued ++ m.inbox.blocked :=
    (List.take_append_drop _ _).symm
  have hwhole : m.running = true → s.agenda i ((start setup).skipped i labels) =
      answeredBy es i ++ m.current ++ m.inbox.queued ++ m.inbox.blocked := by
    intro hrun
    rw [← line.all (Or.inl hrun), line.begun (Or.inl hrun), hsplit,
      List.append_assoc _ _ m.inbox.blocked]
  refine ⟨List.filter_sublist, agenda_pairwise _ _ _, line.first,
    (List.prefix_append _ _).trans line.listed, hwhole, errand.openRequests_le, ?_, ?_, ?_⟩
  · intro hrun hquiet job rest hagenda
    rw [hwhole hrun, List.append_assoc, List.append_assoc, List.append_cancel_left_eq] at hagenda
    cases hwork : m.work with
    | none =>
      have hempty := entries_of_begin hm hrun hwork (hquiet (.begin i) (by simp))
      rw [← hsplit, hempty, Member.current, hwork] at hagenda
      cases hagenda
    | some w =>
      rw [Member.current, hwork] at hagenda ⊢
      exact congrArg (fun job => [job]) (List.cons.inj hagenda).1
  · rw [← hroom]
    exact List.length_take_le _ _
  · intro c hblocked
    obtain ⟨job, hjob, _⟩ := (isBlocked_iff hm).mp hblocked
    have hlong : m.inbox.room < m.inbox.entries.length := by
      by_contra hshort
      rw [Inbox.blocked, List.drop_eq_nil_of_le (Nat.le_of_not_lt hshort)] at hjob
      cases hjob
    rw [← hroom, Inbox.queued, List.length_take]
    omega

/-- The run of a cluster, and the run through the same labels of a cluster whose queues have other
depths. That no caller leaves from outside a queue is asked of both, since whether a message is
outside depends on the depths. -/
theorem order_at_any_depth (h : (start setup).run labels = some (s, es)) :
    (∀ (i : Nat) m client, s.members[i]? = some m → setup.clients[i]? = some client →
      s.KeepsOrder es i m (s.agenda i ((start setup).skipped i labels)) client.depth) ∧
    ∀ setup', setup'.clients.map (·.name) = setup.clients.map (·.name) →
      (start setup).sedate labels = true → (start setup').sedate labels = true →
        (∃ t, (start setup').run labels = some (t, es) ∧ s.SameBut t) ∧
        ∀ early late, labels = early ++ late → ∃ u v now, (start setup).run early = some (u, now) ∧
          (start setup').run early = some (v, now) ∧ u.SameBut v := by
  refine ⟨fun i m client hm hclient => keepsOrder_run h hm hclient, ?_⟩
  intro setup' hnames hsedate hsedate'
  refine ⟨sameBut_run hnames hsedate hsedate' h, ?_⟩
  rintro early late rfl
  obtain ⟨u, now, _, hrun, _, _⟩ := run_split h
  obtain ⟨v, hrun', hsame⟩ :=
    sameBut_run hnames (sedate_of_append hsedate) (sedate_of_append hsedate') hrun
  exact ⟨u, v, now, hrun, hrun', hsame⟩

/-- A caller of the store owns a key, and client 0 waits for it with three actions behind it. -/
def backlogLabels : List Label :=
  [.act (.call (.store .read) "k"), .move .serve, .move (.finish 0),
    .act (.call (.client 0 .get .attached) "k"), .move (.begin 0), .move .serve,
    .act (.call (.client 0 .get (.dispatched false)) "l"),
    .act (.call (.client 0 .get .attached) "m"), .act (.call (.client 0 .get .attached) "n")]

/-- The second of the three is given up while it is outside. With other depths the same run ends in
the same way, also when the caller of the action in hand goes away. -/
theorem order_at_any_depth_of_backlog :
    (∃ s es m, (start ⟨[⟨"a", 1⟩], 1⟩).run (backlogLabels ++ [.act (.cancel 3)]) = some (s, es) ∧
      s.members[0]? = some m ∧ s.Quiescent ∧ m.running = true ∧ s.isBlocked 4 0 = true ∧
      s.agenda 0 [3] = [⟨1, .get, "k"⟩, ⟨2, .get, "l"⟩, ⟨4, .get, "n"⟩] ∧
      s.KeepsOrder es 0 m (s.agenda 0 [3]) 1) ∧
    ∃ s t es, (start ⟨[⟨"a", 1⟩], 1⟩).run (backlogLabels ++ [.act (.cancel 1)]) = some (s, es) ∧
      (start ⟨[⟨"a", 3⟩], 0⟩).run (backlogLabels ++ [.act (.cancel 1)]) = some (t, es) ∧
      s.SameBut t := by
  constructor
  · obtain ⟨s, es, m, h, hm, hquiet, hrun, hblocked, hskipped⟩ : ∃ s es m,
        (start ⟨[⟨"a", 1⟩], 1⟩).run (backlogLabels ++ [.act (.cancel 3)]) = some (s, es) ∧
          s.members[0]? = some m ∧ s.Quiescent ∧ m.running = true ∧ s.isBlocked 4 0 = true ∧
          (start ⟨[⟨"a", 1⟩], 1⟩).skipped 0 (backlogLabels ++ [.act (.cancel 3)]) = [3] ∧
          s.agenda 0 [3] = [⟨1, .get, "k"⟩, ⟨2, .get, "l"⟩, ⟨4, .get, "n"⟩] := by
      exact ⟨_, _, _, rfl, rfl, quiescent_of_moves rfl, rfl, rfl, rfl, rfl⟩
    have horder := (order_at_any_depth h).1 0 m ⟨"a", 1⟩ hm rfl
    rw [hskipped.1] at horder
    exact ⟨s, es, m, h, hm, hquiet, hrun, hblocked, hskipped.2, horder⟩
  · obtain ⟨s, es, h⟩ : ∃ s es,
        (start ⟨[⟨"a", 1⟩], 1⟩).run (backlogLabels ++ [.act (.cancel 1)]) = some (s, es) :=
      ⟨_, _, rfl⟩
    obtain ⟨t, ht, hsame⟩ := ((order_at_any_depth h).2 ⟨[⟨"a", 3⟩], 0⟩ rfl rfl rfl).1
    exact ⟨s, t, es, h, ht, hsame⟩

end Cluster

end Custody
