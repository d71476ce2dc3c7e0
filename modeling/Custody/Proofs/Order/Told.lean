import Custody.Proofs.Away.Bystanders

/-!
# What the callers of a client hear

A call on a client hears from nobody else. While the client is not killed the only news is what it
replies to the job of this very call, so a call was given up, or it has heard nothing, or it has
heard that. The store has messages and readers of its own callers only.
-/

namespace Custody

/-- How far call `c` on client `i` has come. -/
inductive Call.Heeded (es : List Event) (i c : Nat) (call : Call) : Prop where
  | gone (hgone : call.status = .cancelled)
  | waits (hopen : call.Open)
  | told (job : Job) (r : ClientReply) (given : (job, r) ∈ repliesOf es i) (hjob : job.call = c)
      (htold : call.status.receipt = .full (.client r))

namespace Cluster

/-- What a step that reports `es` makes of call `c`, a call on client `i`. -/
inductive Touches (s : Cluster) (i c : Nat) (call : Call) : List Event → Call → Prop where
  | kept {es : List Event} : Touches s i c call es call
  | told (job : Job) (r : ClientReply) (hjob : job.call = c) :
      Touches s i c call [.answered i job r] (call.receive (.full (.client r)))
  | noted {es : List Event} (o : Outcome) (ho : s.outcome? call = some o) :
      Touches s i c call es { call with status := .ended o }
  | taken (a : Answer) (hfull : call.status = .pending true (.full a)) :
      Touches s i c call [] { call with status := .taken a }
  | noticed (hdropped : call.status = .pending true .dropped) :
      Touches s i c call [] { call with status := .pending true .spent }
  | awaited (slot : Slot Answer) (hheld : call.status = .pending true slot) :
      Touches s i c call [] { call with status := .pending false slot }
  | cancelled (hpending : call.isPending = true) :
      Touches s i c call [] { call with status := .cancelled }

variable {s t u : Cluster} {l : Label} {es now : List Event} {e : Event} {i j c n : Nat}
  {call call' : Call} {a : Action} {manner : Manner}

theorem Touches.heeded (touches : s.Touches i c call now call') (heeded : call.Heeded es i c) :
    call'.Heeded (es ++ now) i c := by
  have later : ∀ {x : Job × ClientReply} {now : List Event}, x ∈ repliesOf es i →
      x ∈ repliesOf (es ++ now) i := by
    intro x now hx
    rw [repliesOf_append]
    exact List.mem_append_left _ hx
  cases touches with
  | kept =>
    cases heeded with
    | gone hgone => exact .gone hgone
    | waits hopen => exact .waits hopen
    | told job r given hjob htold => exact .told job r (later given) hjob htold
  | told job r hjob =>
    rcases Call.status_receive call (.full (.client r)) with ⟨held, _, hnews⟩ | ⟨hsame, hheard⟩
    · refine .told job r ?_ hjob (by rw [hnews]; rfl)
      rw [repliesOf_append, repliesOf_answered, if_pos rfl]
      exact List.mem_append_right _ List.mem_cons_self
    · cases heeded with
      | gone hgone => exact .gone (hsame.trans hgone)
      | waits hopen =>
        obtain ⟨held, hopen⟩ := hopen
        exact absurd hopen (hheard held)
      | told job' r' given hjob' htold =>
        exact .told job' r' (later given) hjob' (by rw [hsame, htold])
  | noted o ho =>
    unfold outcome? at ho
    cases heeded with
    | gone hgone => rw [hgone] at ho; cases ho
    | waits hopen =>
      obtain ⟨held, hopen⟩ := hopen
      rw [hopen] at ho
      cases held <;> cases ho
    | told job r given hjob htold =>
      refine .told job r (later given) hjob ?_
      split at ho
      · rename_i x hstatus
        obtain rfl := Option.some.inj ho
        rw [hstatus] at htold
        exact htold
      · rename_i hstatus
        rw [hstatus] at htold
        cases htold
      · rename_i hstatus
        rw [hstatus] at htold
        cases htold
      · cases ho
  | taken x hfull =>
    cases heeded with
    | gone hgone => rw [hgone] at hfull; cases hfull
    | waits hopen =>
      obtain ⟨held, hopen⟩ := hopen
      rw [hopen] at hfull
      cases hfull
    | told job r given hjob htold =>
      rw [hfull] at htold
      exact .told job r (later given) hjob htold
  | noticed hdropped =>
    cases heeded with
    | gone hgone => rw [hgone] at hdropped; cases hdropped
    | waits hopen =>
      obtain ⟨held, hopen⟩ := hopen
      rw [hopen] at hdropped
      cases hdropped
    | told job r given hjob htold => rw [hdropped] at htold; cases htold
  | awaited slot hheld =>
    cases heeded with
    | gone hgone => rw [hgone] at hheld; cases hheld
    | waits hopen =>
      obtain ⟨held, hopen⟩ := hopen
      rw [hopen] at hheld
      cases hheld
      exact .waits ⟨false, rfl⟩
    | told job r given hjob htold =>
      rw [hheld] at htold
      exact .told job r (later given) hjob htold
  | cancelled => exact .gone rfl

/-! ## Who is told -/

/-- What the caller itself does about its call. -/
theorem touches_of_own (hcall : s.calls[c]? = some call) (hl : l.byCaller c = true)
    (h : s.step l = some (t, now)) :
    ∃ call', t.calls[c]? = some call' ∧ s.Touches i c call now call' := by
  obtain rfl | rfl | rfl | rfl := Label.of_byCaller hl
  · obtain ⟨hact, rfl⟩ := step_act h
    obtain ⟨call₀, hcall₀, hdone⟩ := take_held_cases hact
    obtain rfl := Option.some.inj (hcall.symm.trans hcall₀)
    obtain ⟨x, hfull, rfl⟩ | ⟨hdropped, rfl⟩ | rfl := hdone
    · exact ⟨_, by rw [calls_onCall, if_pos rfl, hcall]; rfl, .taken x hfull⟩
    · exact ⟨_, by rw [calls_onCall, if_pos rfl, hcall]; rfl, .noticed hdropped⟩
    · exact ⟨call, hcall, .kept⟩
  · obtain ⟨hact, rfl⟩ := step_act h
    obtain ⟨call₀, slot, hcall₀, hheld, rfl⟩ := wait_held_cases hact
    obtain rfl := Option.some.inj (hcall.symm.trans hcall₀)
    exact ⟨_, by rw [calls_onCall, if_pos rfl, hcall]; rfl, .awaited slot hheld⟩
  · obtain ⟨hact, rfl⟩ := step_act h
    obtain rfl := Option.some.inj hact
    rw [calls_cancel, if_pos rfl, hcall, Option.map_some]
    split
    · rename_i hpending
      exact ⟨_, rfl, .cancelled hpending⟩
    · exact ⟨_, rfl, .kept⟩
  · obtain ⟨e, hfire, rfl⟩ := step_move h
    obtain ⟨call₀, o, hcall₀, ho, rfl, rfl⟩ := finish_cases hfire
    obtain rfl := Option.some.inj (hcall.symm.trans hcall₀)
    exact ⟨_, by rw [calls_onCall, if_pos rfl, hcall]; rfl, .noted o ho⟩

/-- While its client is not killed, others can only reply to a call. -/
theorem Affects.touches (affects : s.Affects i c call l now call')
    (hclient : l ≠ .act (.killClient i)) : s.Touches i c call now call' := by
  cases affects with
  | kept => exact .kept
  | answered r hjob => exact .told _ r hjob
  | spared => exact absurd rfl hclient
  | dropped => exact absurd rfl hclient
  | refused => exact absurd rfl hclient

theorem touches_step (onRecord : s.OnRecord) (hcall : s.calls[c]? = some call)
    (htarget : call.target = .client i a manner) (hclient : l ≠ .act (.killClient i))
    (h : s.step l = some (t, now)) :
    ∃ call', t.calls[c]? = some call' ∧ s.Touches i c call now call' := by
  cases hl : l.byCaller c with
  | true => exact touches_of_own hcall hl h
  | false =>
    obtain ⟨call', hcall', affects⟩ := affects_step onRecord hcall htarget hl h
    exact ⟨call', hcall', affects.touches hclient⟩

/-- A new call on a client that was not killed is open: only a client that can no longer be called
has stopped. -/
theorem open_of_call {k : Key} {setup : Setup} {labels : List Label}
    (hrun : (start setup).run labels = some (s, es)) (hclient : .act (.killClient i) ∉ labels)
    (h : s.call (.client i a manner) k = some t) (hcall : t.calls[s.calls.length]? = some call) :
    call.Open := by
  obtain ⟨m, hm, hhandle, ⟨_, rfl⟩ | ⟨hstopped, _⟩⟩ := call_client_cases h
  · obtain rfl : _ = call := by simpa [enter] using hcall
    exact ⟨_, rfl⟩
  · have hgone := (inLine_run hrun hm).retired hclient hstopped
    rw [hhandle] at hgone
    cases hgone

theorem heeded_run {setup : Setup} {labels : List Label}
    (h : (start setup).run labels = some (s, es)) (hclient : .act (.killClient i) ∉ labels)
    (hcall : s.calls[c]? = some call) (htarget : call.target = .client i a manner) :
    call.Heeded es i c := by
  refine history_induction (s := start setup) (P := fun labels s es =>
    .act (.killClient i) ∉ labels → ∀ c call a manner, s.calls[c]? = some call →
      call.target = .client i a manner → call.Heeded es i c) ?_ ?_ h
    hclient c call a manner hcall htarget
  · intro _ c call a manner hcall
    cases hcall
  · intro past u before l t now hpast ih hstep hclient c call' a manner hcall' htarget
    obtain ⟨hunkilled, hlast⟩ := notMem_snoc hclient
    have onRecord := onRecord_run (onRecord_start setup) hpast
    obtain ⟨call, hcall, hagrees⟩ | ⟨rfl, rfl⟩ := call_before hstep hcall'
    · have htarget' : call.target = .client i a manner := hagrees.1.symm.trans htarget
      obtain ⟨call'', hcall'', touches⟩ := touches_step onRecord hcall htarget' hlast hstep
      obtain rfl := Option.some.inj (hcall'.symm.trans hcall'')
      exact touches.heeded (ih hunkilled c call a manner hcall htarget')
    · obtain ⟨hact, rfl⟩ := step_act hstep
      rw [htarget] at hact
      exact .waits (open_of_call hpast hunkilled hact hcall')

end Cluster

end Custody
