import Custody.Proofs.Order.Fares

/-!
# The actions issued to a client

Calls are numbered in the order in which they are made, so the calls on one client are its actions
in the order in which they were issued. An action is left out when its caller goes away while it is
still outside the client's queue. What a client has taken up, and what it has answered, is read off
the events of a run.
-/

namespace Custody

/-- The job that call `id` sends to client `i`. -/
def Call.job? (call : Call) (id i : Nat) : Option Job :=
  match call.target with
  | .client j a _ => if j = i then some ⟨id, a, call.key⟩ else none
  | _ => none

/-- Two records of the same call. -/
def Call.Agrees (call call' : Call) : Prop := call'.target = call.target ∧ call'.key = call.key

theorem Call.Agrees.job? {call call' : Call} (h : call.Agrees call') (n i : Nat) :
    call'.job? n i = call.job? n i := by
  rw [Call.job?, Call.job?, h.1, h.2]

theorem call_of_job? {call : Call} {id i : Nat} {job : Job} (h : call.job? id i = some job) :
    job.call = id ∧ job.key = call.key ∧ ∃ manner, call.target = .client i job.action manner := by
  simp only [Call.job?] at h
  split at h
  · rename_i j a manner htarget
    split at h
    · rename_i hij
      subst hij
      obtain rfl := Option.some.inj h
      exact ⟨rfl, rfl, manner, htarget⟩
    · cases h
  · cases h

/-- The action that a label issues to client `i`, as call `n`. -/
def Label.order (n i : Nat) : Label → List Job
  | .act (.call (.client j a _) k) => if j = i then [⟨n, a, k⟩] else []
  | _ => []

/-- The jobs that client `i` has taken up, in order: it asks the store, or it answers something
other than the job for which it asked last. -/
def Event.takeUp (i : Nat) (jobs : List Job) : Event → List Job
  | .asked j job => if j = i then jobs ++ [job] else jobs
  | .answered j job _ => if j = i ∧ jobs.getLast? ≠ some job then jobs ++ [job] else jobs
  | _ => jobs

def takenUp (es : List Event) (i : Nat) : List Job := es.foldl (Event.takeUp i) []

/-- The jobs that client `i` has answered, in order. -/
def answeredBy (es : List Event) (i : Nat) : List Job := (repliesOf es i).map (·.1)

namespace Cluster

/-- The actions issued to client `i`, in order. -/
def issued (s : Cluster) (i : Nat) : List Job := s.calls.zipIdx.filterMap fun c => c.1.job? c.2 i

/-- The caller that goes away at a label while its action is outside the queue of client `i`. -/
def skips (s : Cluster) (i : Nat) : Label → List Nat
  | .act (.cancel c) => if s.isPresent (.caller c) && s.isBlocked c i then [c] else []
  | _ => []

/-- The calls whose actions never get into the queue of client `i`. -/
def skipped (s : Cluster) (i : Nat) : List Label → List Nat
  | [] => []
  | l :: rest => s.skips i l ++ match s.step l with
    | some (t, _) => t.skipped i rest
    | none => []

/-- The actions that client `i` is to perform, in order. -/
def agenda (s : Cluster) (i : Nat) (gone : List Nat) : List Job :=
  (s.issued i).filter fun job => !gone.contains job.call

variable {s t u : Cluster} {l : Label} {es now : List Event} {labels : List Label} {i n : Nat}
  {job : Job} {gone : List Nat}

/-! ## Runs from their end -/

/-- What holds at the start and is kept by a step after any run holds after every run. -/
theorem history_induction {P : List Label → Cluster → List Event → Prop} (start : P [] s [])
    (keeps : ∀ past u es l t now, s.run past = some (u, es) → P past u es →
      u.step l = some (t, now) → P (past ++ [l]) t (es ++ now))
    (h : s.run labels = some (t, es)) : P labels t es := by
  have along : ∀ (rest past : List Label) (u : Cluster) (before later : List Event),
      s.run past = some (u, before) → P past u before → u.run rest = some (t, later) →
        P (past ++ rest) t (before ++ later) := by
    intro rest
    induction rest with
    | nil =>
      intro past u before later _ hpast hrest
      obtain ⟨rfl, rfl⟩ := Prod.mk.inj (Option.some.inj hrest)
      simpa using hpast
    | cons l rest ih =>
      intro past u before later hrun hpast hrest
      obtain ⟨v, now, last, hstep, hlast, rfl⟩ := run_cons hrest
      have hnext := ih (past ++ [l]) v (before ++ now) last (run_snoc hrun hstep)
        (keeps past u before l v now hrun hpast hstep) hlast
      simpa [List.append_assoc] using hnext
  exact along labels [] s [] es rfl start h

theorem skipped_snoc (h : s.run labels = some (t, es)) :
    s.skipped i (labels ++ [l]) = s.skipped i labels ++ t.skips i l := by
  induction labels generalizing s es with
  | nil =>
    obtain ⟨rfl, rfl⟩ := Prod.mk.inj (Option.some.inj h)
    rw [List.nil_append, skipped, skipped, List.nil_append]
    cases s.step l with
    | none => exact List.append_nil _
    | some next => exact List.append_nil _
  | cons k rest ih =>
    obtain ⟨v, now, later, hv, hlater, rfl⟩ := run_cons h
    rw [List.cons_append, skipped, skipped, hv]
    simp only
    rw [ih hlater, List.append_assoc]

/-- What is not done in a run is not done last. -/
theorem notMem_snoc {x : Label} (hx : x ∉ labels ++ [l]) : x ∉ labels ∧ l ≠ x := by
  refine ⟨fun hmem => hx (List.mem_append_left _ hmem), ?_⟩
  rintro rfl
  exact hx (List.mem_append_right _ List.mem_cons_self)

/-! ## What a step adds -/

/-- A step makes at most one call, and all others stay what they are. -/
theorem calls_step (h : s.step l = some (t, now)) :
    (∃ target k status, l = .act (.call target k) ∧ t.calls = s.calls ++ [⟨target, k, status⟩]) ∨
      ((∀ target k, l ≠ .act (.call target k)) ∧ List.Forall₂ Call.Agrees s.calls t.calls) := by
  obtain ⟨target, k, status, hl, hcalls, _⟩ | ⟨hother, hages⟩ := ages_step h
  · exact Or.inl ⟨target, k, status, hl, hcalls⟩
  · exact Or.inr ⟨hother, hages.imp fun _ _ hcall => ⟨hcall.target, hcall.key⟩⟩

/-- A call was there before, or the step has made it. -/
theorem call_before {c : Nat} {call' : Call} (h : s.step l = some (t, now))
    (hcall : t.calls[c]? = some call') :
    (∃ call, s.calls[c]? = some call ∧ call.Agrees call') ∨
      (c = s.calls.length ∧ l = .act (.call call'.target call'.key)) := by
  obtain ⟨target, k, status, hl, hcalls⟩ | ⟨_, hagrees⟩ := calls_step h
  · rw [hcalls] at hcall
    obtain hcall | ⟨hc, rfl⟩ := entry_snoc hcall
    · exact Or.inl ⟨call', hcall, rfl, rfl⟩
    · exact Or.inr ⟨hc, hl⟩
  · exact Or.inl (before_of_forall₂ hagrees hcall)

theorem jobs_of_agrees {calls calls' : List Call} (h : List.Forall₂ Call.Agrees calls calls')
    (k : Nat) : (calls'.zipIdx k).filterMap (fun c => c.1.job? c.2 i) =
      (calls.zipIdx k).filterMap fun c => c.1.job? c.2 i := by
  induction h generalizing k with
  | nil => rfl
  | cons hhead _ ih =>
    simp only [List.zipIdx_cons, List.filterMap_cons, Call.Agrees.job? hhead, ih]

theorem issued_of_agrees (h : List.Forall₂ Call.Agrees s.calls t.calls) :
    t.issued i = s.issued i := jobs_of_agrees h 0

theorem issued_step (h : s.step l = some (t, now)) :
    t.issued i = s.issued i ++ l.order s.calls.length i := by
  obtain ⟨target, k, status, rfl, hcalls⟩ | ⟨hother, hagrees⟩ := calls_step h
  · rw [issued, hcalls, List.zipIdx_append, List.filterMap_append, Nat.zero_add]
    congr 1
    cases target with
    | client j a manner =>
      by_cases hij : j = i
      · simp [Call.job?, Label.order, hij]
      · simp [Call.job?, Label.order, hij]
    | store op => rfl
    | snapshot => rfl
  · have hnone : l.order s.calls.length i = [] := by
      unfold Label.order
      split
      · exact absurd rfl (hother _ _)
      · rfl
    rw [issued_of_agrees hagrees, hnone, List.append_nil]

theorem mem_issued : job ∈ s.issued i ↔ ∃ call manner, s.calls[job.call]? = some call ∧
    call.target = .client i job.action manner ∧ call.key = job.key := by
  rw [issued, List.mem_filterMap]
  constructor
  · rintro ⟨⟨call, id⟩, hmem, hjob⟩
    obtain ⟨rfl, hkey, manner, htarget⟩ := call_of_job? hjob
    exact ⟨call, manner, List.mk_mem_zipIdx_iff_getElem?.mp hmem, htarget, hkey.symm⟩
  · rintro ⟨call, manner, hcall, htarget, hkey⟩
    refine ⟨(call, job.call), List.mk_mem_zipIdx_iff_getElem?.mpr hcall, ?_⟩
    simp [Call.job?, htarget, hkey]

/-- Later actions have later calls. -/
theorem issued_pairwise (s : Cluster) (i : Nat) :
    (s.issued i).Pairwise fun a b => a.call < b.call := by
  rw [issued, List.pairwise_filterMap]
  have hnumbers : s.calls.zipIdx.Pairwise fun a b => a.2 < b.2 := by
    have hrange : (s.calls.zipIdx.map fun c => c.2).Pairwise (· < ·) := by
      rw [List.zipIdx_map_snd]
      exact List.pairwise_lt_range'
    exact List.pairwise_map.mp hrange
  refine hnumbers.imp fun hlt x hx y hy => ?_
  rw [(call_of_job? hx).1, (call_of_job? hy).1]
  exact hlt

theorem agenda_pairwise (s : Cluster) (i : Nat) (gone : List Nat) :
    (s.agenda i gone).Pairwise fun a b => a.call < b.call :=
  (issued_pairwise s i).filter _

theorem mem_agenda : job ∈ s.agenda i gone ↔ job ∈ s.issued i ∧ job.call ∉ gone := by
  simp [agenda]

/-- One more caller that goes away. -/
theorem agenda_snoc (c : Nat) :
    s.agenda i (gone ++ [c]) = (s.agenda i gone).filter fun job => !(job.call == c) := by
  rw [agenda, agenda, List.filter_filter]
  refine List.filter_congr fun job _ => ?_
  rw [List.contains_append, Bool.not_or, Bool.and_comm, List.contains_cons, List.contains_nil,
    Bool.or_false]

end Cluster

end Custody
