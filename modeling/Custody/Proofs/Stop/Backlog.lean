import Custody.Proofs.Stop.Desertion

/-!
# Working off the backlog

Without a store the clients answer the jobs that they have, in the order of their backlogs, and
whoever has called them gets the reply to its own job. What was answered and what is still to be
answered is the same all the time.
-/

namespace Custody

/-- The status of a call that has got its answer: one that is held waits to be looked at. -/
def Status.settled (held : Bool) (a : Answer) : Status :=
  if held then .pending true (.full a) else .ended (.answered a)

/-- How far the call of a job has come when its client has given some replies: it waits, it has its
reply, or it is settled. -/
inductive Status.Served (held : Bool) (job : Job) (replies : List (Job × ClientReply)) :
    Status → Prop
  | waits : Served held job replies (.pending held .empty)
  | told (r : ClientReply) (given : (job, r) ∈ replies) :
      Served held job replies (.pending held (.full (.client r)))
  | settled (r : ClientReply) (given : (job, r) ∈ replies) :
      Served held job replies (Status.settled held (.client r))

variable {held : Bool} {job : Job} {replies : List (Job × ClientReply)}

theorem Status.Served.later {status : Status} (h : status.Served held job replies)
    (further : List (Job × ClientReply)) : status.Served held job (replies ++ further) := by
  cases h with
  | waits => exact .waits
  | told r given => exact .told r (List.mem_append_left _ given)
  | settled r given => exact .settled r (List.mem_append_left _ given)

/-- Only the first reply counts. -/
theorem Status.Served.receive {call : Call} {r : ClientReply}
    (h : call.status.Served held job replies) (given : (job, r) ∈ replies) :
    (call.receive (.full (.client r))).status.Served held job replies := by
  rcases Call.status_receive call (.full (.client r)) with ⟨held', hopen, hnews⟩ | ⟨hsame, _⟩
  · rw [hnews]
    generalize call.status = status at h hopen
    cases h with
    | waits =>
      cases hopen
      exact .told r given
    | told => cases hopen
    | settled => cases held <;> cases hopen
  · rw [hsame]
    exact h

theorem Status.Served.finish {s : Cluster} {call : Call} {o : Outcome}
    (h : call.status.Served held job replies) (ho : s.outcome? call = some o) :
    (Status.ended o).Served held job replies := by
  unfold Cluster.outcome? at ho
  generalize call.status = status at h ho
  cases h with
  | waits => cases held <;> cases ho
  | told r given =>
    cases held with
    | true => cases ho
    | false =>
      cases ho
      exact .settled r given
  | settled r given => cases held <;> cases ho

namespace Cluster

variable {s t u : Cluster} {e : Event} {es now : List Event} {i n : Nat} {m m' : Member}
  {job : Job} {r : ClientReply} {mv : Move}

/-- `u` came of `s` by moves alone, which reported `es`. What the clients have answered and what
they have still to answer is what they had to answer in `s`. -/
structure WorksOff (s u : Cluster) (es : List Event) : Prop where
  deserted : u.Deserted
  onRecord : u.OnRecord
  backlog : ∀ (i : Nat) m, s.members[i]? = some m → ∃ m', u.members[i]? = some m' ∧
    m.backlog.2 = repliesOf es i ++ m'.backlog.2 ∧
      (m'.running = true → m'.backlog.1 = m.backlog.1) ∧
        (m.running = true → m'.running = false → m'.backlog.2 = [])
  callers : ∀ (c : Nat) call i act manner held, s.calls[c]? = some call →
    call.target = .client i act manner → call.status = .pending held .empty →
      ∃ call', u.calls[c]? = some call' ∧ call'.target = call.target ∧ call'.key = call.key ∧
        call'.status.Served held ⟨c, act, call.key⟩ (repliesOf es i)
  store : ∀ (c : Nat) call op, s.calls[c]? = some call → call.target = .store op →
    call.status = .pending false .dropped → ∃ call', u.calls[c]? = some call' ∧
      call'.target = call.target ∧ (call'.status = .pending false .dropped ∨
        call'.status = .ended (.failed (.failure .replyDropped)))

theorem worksOff_start (deserted : s.Deserted) (onRecord : s.OnRecord) : s.WorksOff s [] where
  deserted := deserted
  onRecord := onRecord
  backlog i m hm := by
    refine ⟨m, hm, rfl, fun _ => rfl, fun hrun hstopped => ?_⟩
    rw [hrun] at hstopped
    cases hstopped
  callers c call i act manner held hcall htarget hstatus :=
    ⟨call, hcall, rfl, rfl, hstatus ▸ .waits⟩
  store c call op hcall htarget hstatus := ⟨call, hcall, rfl, Or.inl hstatus⟩

theorem repliesOf_answered (i j : Nat) (job : Job) (r : ClientReply) :
    repliesOf [.answered j job r] i = if j = i then [(job, r)] else [] := by
  unfold repliesOf
  split
  · rename_i hij
    simp [hij]
  · rename_i hij
    simp [hij]

/-- A client settles the first job of its backlog, and its caller hears of it. -/
theorem WorksOff.settles (worksOff : s.WorksOff u es) (h : u.Settles i m job r m')
    (hdeserted : ((u.onMember i fun _ => m').answer job r).Deserted)
    (hrecord : ((u.onMember i fun _ => m').answer job r).OnRecord) :
    s.WorksOff ((u.onMember i fun _ => m').answer job r) (es ++ [.answered i job r]) where
  deserted := hdeserted
  onRecord := hrecord
  backlog := by
    intro j n hn
    obtain ⟨n', hn', hreplies, hcache, hempty⟩ := worksOff.backlog j n hn
    rw [repliesOf_append, repliesOf_answered, members_answer, members_onMember]
    by_cases hij : i = j
    · subst hij
      obtain rfl := Option.some.inj (h.member.symm.trans hn')
      rw [if_pos rfl, if_pos rfl, hn']
      refine ⟨m', rfl, ?_, fun _ => ?_, fun _ hstopped => ?_⟩
      · rw [hreplies, h.first, List.append_assoc]
        rfl
      · rw [← hcache h.running, h.first]
      · rw [h.stays] at hstopped
        cases hstopped
    · rw [if_neg hij, if_neg hij, List.append_nil]
      exact ⟨n', hn', hreplies, hcache, hempty⟩
  callers := by
    intro c call j act manner held hcall htarget hstatus
    obtain ⟨call', hcall', htarget', hkey', hserved⟩ :=
      worksOff.callers c call j act manner held hcall htarget hstatus
    have hlater : call'.status.Served held ⟨c, act, call.key⟩
        (repliesOf (es ++ [.answered i job r]) j) := by
      rw [repliesOf_append]
      exact hserved.later _
    have hcalls : ((u.onMember i fun _ => m').answer job r).calls[c]? =
        if job.call = c then u.calls[c]?.map (·.receive (.full (.client r))) else u.calls[c]? :=
      calls_onCall (u.onMember i fun _ => m') c job.call _
    rw [hcalls, hcall']
    by_cases hc : job.call = c
    · rw [if_pos hc]
      refine ⟨_, rfl, Call.target_receive.trans htarget', Call.key_receive.trans hkey',
        hlater.receive ?_⟩
      -- the job is the caller's own, since every job belongs to the call that it names
      obtain ⟨call'', manner', hplaced, htarget'', hkey''⟩ :=
        worksOff.onRecord.placed i m job h.member h.mem
      rw [hc, hcall'] at hplaced
      obtain rfl := Option.some.inj hplaced
      rw [htarget', htarget] at htarget''
      obtain ⟨rfl, rfl, rfl⟩ := Target.client.inj htarget''
      rw [repliesOf_append, repliesOf_answered, if_pos rfl, ← hkey', hkey'', ← hc]
      exact List.mem_append_right _ (List.mem_singleton.mpr rfl)
    · rw [if_neg hc]
      exact ⟨call', rfl, htarget', hkey', hlater⟩
  store := by
    intro c call op hcall htarget hstatus
    obtain ⟨call', hcall', htarget', hwhere⟩ := worksOff.store c call op hcall htarget hstatus
    have hcalls : ((u.onMember i fun _ => m').answer job r).calls[c]? =
        if job.call = c then u.calls[c]?.map (·.receive (.full (.client r))) else u.calls[c]? :=
      calls_onCall (u.onMember i fun _ => m') c job.call _
    rw [hcalls, hcall']
    split
    · refine ⟨_, rfl, Call.target_receive.trans htarget', ?_⟩
      rcases Call.status_receive call' (.full (.client r)) with ⟨held, hopen, _⟩ | ⟨hsame, _⟩
      · rw [hopen] at hwhere
        rcases hwhere with hwhere | hwhere
        · cases hwhere
        · cases hwhere
      · rw [hsame]
        exact hwhere
    · exact ⟨call', rfl, htarget', hwhere⟩

/-- A member leaves only when it has nothing left to answer. -/
theorem WorksOff.leaves (worksOff : s.WorksOff u es) (hm : u.members[i]? = some m)
    (hdone : m.backlog.2 = []) (hdeserted : (u.onMember i .halt).Deserted)
    (hrecord : (u.onMember i .halt).OnRecord) :
    s.WorksOff (u.onMember i .halt) (es ++ [.left i]) where
  deserted := hdeserted
  onRecord := hrecord
  backlog := by
    intro j n hn
    obtain ⟨n', hn', hreplies, hcache, hempty⟩ := worksOff.backlog j n hn
    have hsame : repliesOf (es ++ [.left i]) j = repliesOf es j := by
      rw [repliesOf_append]
      exact List.append_nil _
    rw [hsame, members_onMember, hn']
    split
    · rename_i hij
      subst hij
      obtain rfl := Option.some.inj (hm.symm.trans hn')
      exact ⟨m.halt, rfl, by rw [hreplies, hdone]; rfl, nofun, fun _ _ => rfl⟩
    · exact ⟨n', rfl, hreplies, hcache, hempty⟩
  callers := by
    intro c call j act manner held hcall htarget hstatus
    have hsame : repliesOf (es ++ [.left i]) j = repliesOf es j := by
      rw [repliesOf_append]
      exact List.append_nil _
    rw [hsame]
    exact worksOff.callers c call j act manner held hcall htarget hstatus
  store := worksOff.store

/-- A caller takes note of what it has heard. -/
theorem WorksOff.finishes {c : Nat} (worksOff : s.WorksOff u es)
    (h : u.finish c = some (t, e)) (hdeserted : t.Deserted) (hrecord : t.OnRecord) :
    s.WorksOff t (es ++ [e]) := by
  obtain ⟨done, o, hdone, ho, rfl, rfl⟩ := finish_cases h
  have hsame : ∀ j, repliesOf (es ++ [.ended c o]) j = repliesOf es j := by
    intro j
    rw [repliesOf_append]
    exact List.append_nil _
  refine ⟨hdeserted, hrecord, ?_, ?_, ?_⟩
  · intro j n hn
    rw [hsame]
    exact worksOff.backlog j n hn
  · intro c' call j act manner held hcall htarget hstatus
    obtain ⟨call', hcall', htarget', hkey', hserved⟩ :=
      worksOff.callers c' call j act manner held hcall htarget hstatus
    rw [hsame, calls_onCall, hcall']
    split
    · rename_i hc
      subst hc
      obtain rfl := Option.some.inj (hdone.symm.trans hcall')
      exact ⟨_, rfl, htarget', hkey', hserved.finish ho⟩
    · exact ⟨call', rfl, htarget', hkey', hserved⟩
  · intro c' call op hcall htarget hstatus
    obtain ⟨call', hcall', htarget', hwhere⟩ := worksOff.store c' call op hcall htarget hstatus
    rw [calls_onCall, hcall']
    split
    · rename_i hc
      subst hc
      obtain rfl := Option.some.inj (hdone.symm.trans hcall')
      refine ⟨_, rfl, htarget', Or.inr ?_⟩
      rcases hwhere with hwhere | hwhere
      · obtain rfl : .failed (.failure .replyDropped) = o := by
          simpa [outcome?, hwhere, lossOf, htarget', htarget] using ho
        rfl
      · simp [outcome?, hwhere] at ho
    · exact ⟨call', rfl, htarget', hwhere⟩

theorem WorksOff.fire (worksOff : s.WorksOff u es) (h : u.fire mv = some (t, e)) :
    s.WorksOff t (es ++ [e]) := by
  have hstep : u.step (.move mv) = some (t, [e]) := by rw [step, h]; rfl
  have hdeserted : t.Deserted := worksOff.deserted.step hstep
  have hrecord := onRecord_fire worksOff.onRecord h
  obtain ⟨i, m, job, r, m', hsettles, rfl, rfl⟩ | ⟨i, m, hm, hdone, rfl, rfl⟩ | ⟨c, _, hfinish⟩ :=
    worksOff.deserted.fire_cases worksOff.onRecord h
  · exact worksOff.settles hsettles hdeserted hrecord
  · exact worksOff.leaves hm hdone hdeserted hrecord
  · exact worksOff.finishes hfinish hdeserted hrecord

theorem worksOff_run {moves : List Move} (deserted : s.Deserted) (onRecord : s.OnRecord)
    (h : s.run (moves.map .move) = some (t, es)) : s.WorksOff t es := by
  refine run_induction (A := fun l => ∃ mv, l = .move mv) (P := fun u es => s.WorksOff u es) ?_ ?_
    [] (worksOff_start deserted onRecord) h
  · rintro u past _ v now ⟨mv, rfl⟩ hworks hstep
    obtain ⟨e, hfire, rfl⟩ := step_move hstep
    exact hworks.fire hfire
  · intro l hl
    obtain ⟨mv, _, rfl⟩ := List.mem_map.mp hl
    exact ⟨mv, rfl⟩

end Cluster

end Custody
