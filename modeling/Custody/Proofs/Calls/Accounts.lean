import Custody.Proofs.Calls.Inquiry
import Custody.Proofs.Cluster.Rules

/-!
# What has become of a call

A call is given up, or under way, or answered, or it was a read that lost its place. A call on a
client is under way while the client has its job, a call for a snapshot while it is in the store's
inbox, and a call on the store while nothing has been heard of it.
-/

namespace Custody

namespace Member

/-- The job in hand and those in the inbox. -/
def jobs (m : Member) : List Job := m.work.toList.map (·.job) ++ m.inbox.entries

variable {m : Member} {job : Job}

theorem mem_jobs : job ∈ m.jobs ↔ (∃ slot, m.work = some ⟨job, slot⟩) ∨ job ∈ m.inbox.entries := by
  rw [jobs, List.mem_append]
  refine or_congr_left ?_
  cases m.work with
  | none => simp
  | some w =>
    obtain ⟨job', slot⟩ := w
    simp [eq_comm]

theorem jobs_hear (m : Member) (f : Option Fate) : (m.hear f).jobs = m.jobs := by
  obtain ⟨name, inbox, handle, running, cache, work⟩ := m
  cases work <;> rfl

end Member

namespace Call

/-- The caller hears that the store let its request go. -/
def Dropped (call : Call) : Prop :=
  call.status = .pending false .dropped ∨
    call.status = .ended (.failed (.failure .replyDropped))

variable {call : Call} {news : Slot Answer}

theorem Dropped.receipt (h : call.Dropped) : call.status.receipt = .dropped := by
  rcases h with h | h
  · rw [h]
    rfl
  · rw [h]
    rfl

theorem not_dropped_of_held {slot : Slot Answer} (h : call.status = .pending true slot) :
    ¬ call.Dropped := by
  rintro (hlost | hlost)
  · cases h.symm.trans hlost
  · cases h.symm.trans hlost

@[simp] theorem target_receive : (call.receive news).target = call.target := by
  obtain ⟨target, key, status⟩ := call
  cases status <;> rfl

@[simp] theorem key_receive : (call.receive news).key = call.key := by
  obtain ⟨target, key, status⟩ := call
  cases status <;> rfl

@[simp] theorem target_hear {f : Option Fate} : (call.hear f).target = call.target := by
  cases f with
  | none => rfl
  | some f => exact target_receive

@[simp] theorem key_hear {f : Option Fate} : (call.hear f).key = call.key := by
  cases f with
  | none => rfl
  | some f => exact key_receive

/-- Only a caller that has heard nothing takes note of news. -/
theorem status_receive (call : Call) (news : Slot Answer) :
    (∃ held, call.status = .pending held .empty ∧
      (call.receive news).status = .pending held news) ∨
    ((call.receive news).status = call.status ∧ ∀ held, call.status ≠ .pending held .empty) := by
  obtain ⟨target, key, status⟩ := call
  cases status with
  | pending held slot =>
    cases slot with
    | empty => exact Or.inl ⟨held, rfl, rfl⟩
    | full a => exact Or.inr ⟨rfl, by simp⟩
    | dropped => exact Or.inr ⟨rfl, by simp⟩
    | spent => exact Or.inr ⟨rfl, by simp⟩
  | ended o => exact Or.inr ⟨rfl, by simp⟩
  | taken a => exact Or.inr ⟨rfl, by simp⟩
  | cancelled => exact Or.inr ⟨rfl, by simp⟩

end Call

theorem Status.open_cases {status : Status} (h : status.receipt = .empty) :
    status = .cancelled ∨ ∃ held, status = .pending held .empty := by
  cases status with
  | pending held slot =>
    obtain rfl : slot = .empty := h
    exact Or.inr ⟨held, rfl⟩
  | ended o => cases o <;> cases h
  | taken a => cases h
  | cancelled => exact Or.inl rfl

/-- `a` is an answer to call `c`; what a client answers it has answered in an event. -/
def Answers (es : List Event) (c : Nat) (call : Call) : Answer → Prop
  | .client r => ∃ i act manner, call.target = .client i act manner ∧
      .answered i ⟨c, act, call.key⟩ r ∈ es
  | .store _ => ∃ op, call.target = .store op
  | .snapshot _ => call.target = .snapshot

theorem Answers.mono {es es' : List Event} {c : Nat} {call call' : Call} {a : Answer}
    (ha : Answers es c call a) (hes : es ⊆ es') (htarget : call'.target = call.target)
    (hkey : call'.key = call.key) : Answers es' c call' a := by
  cases a with
  | client r =>
    obtain ⟨i, act, manner, hclient, he⟩ := ha
    exact ⟨i, act, manner, htarget.trans hclient, hkey ▸ hes he⟩
  | store r =>
    obtain ⟨op, hop⟩ := ha
    exact ⟨op, htarget.trans hop⟩
  | snapshot shot => exact htarget.trans ha

namespace Cluster

/-- Somebody has the message of call `c`. What the store has is on the docket. -/
def Carries (s : Cluster) (c : Nat) (call : Call) : Prop :=
  match call.target with
  | .client i act _ => ∃ m, s.members[i]? = some m ∧ m.running = true ∧
      ⟨c, act, call.key⟩ ∈ m.jobs
  | .store _ => call.status = .pending false .empty
  | .snapshot => .snapshot c ∈ s.keeper.inbox.entries

/-- What has become of call `c`. -/
inductive Accounts (s : Cluster) (es : List Event) (c : Nat) (call : Call) : Prop where
  | gone (hgone : call.status = .cancelled)
  | underway (hopen : call.status.receipt = .empty) (hcarries : s.Carries c call)
  | answered (a : Answer) (hfull : call.status.receipt = .full a) (ha : Answers es c call a)
  | lost (op : Operation) (hop : call.target = .store op) (hlost : call.Dropped)

variable {s t : Cluster} {es now : List Event} {c : Nat} {call : Call}

/-- A message is still there if its member or the store's inbox still has it. -/
theorem Carries.change (h : s.Carries c call)
    (hclient : ∀ i act manner m, call.target = .client i act manner → s.members[i]? = some m →
      m.running = true → ⟨c, act, call.key⟩ ∈ m.jobs →
      ∃ m', t.members[i]? = some m' ∧ m'.running = true ∧ ⟨c, act, call.key⟩ ∈ m'.jobs)
    (hsnapshot : .snapshot c ∈ s.keeper.inbox.entries → .snapshot c ∈ t.keeper.inbox.entries) :
    t.Carries c call := by
  unfold Carries at h ⊢
  cases htarget : call.target with
  | client i act manner =>
    rw [htarget] at h
    obtain ⟨m, hm, hrun, hjob⟩ := h
    exact hclient i act manner m htarget hm hrun hjob
  | store op =>
    rw [htarget] at h
    exact h
  | snapshot =>
    rw [htarget] at h
    exact hsnapshot h

theorem carries_of_store {op : Operation} (htarget : call.target = .store op) :
    s.Carries c call ↔ call.status = .pending false .empty := by
  rw [Carries, htarget]

theorem Accounts.mono (h : s.Accounts es c call) (hcarries : s.Carries c call → t.Carries c call) :
    t.Accounts (es ++ now) c call := by
  cases h with
  | gone hgone => exact .gone hgone
  | underway hopen hthere => exact .underway hopen (hcarries hthere)
  | answered a hfull ha =>
    exact .answered a hfull (ha.mono (List.subset_append_left es now) rfl rfl)
  | lost op hop hlost => exact .lost op hop hlost

/-- A caller that has heard something, or gone away, takes no note of news. -/
theorem Accounts.unmoved {news : Slot Answer} (h : s.Accounts es c call)
    (hsame : (call.receive news).status = call.status)
    (hheard : ∀ held, call.status ≠ .pending held .empty) :
    t.Accounts (es ++ now) c (call.receive news) := by
  cases h with
  | gone hgone => exact .gone (hsame.trans hgone)
  | underway hopen =>
    rcases Status.open_cases hopen with hgone | ⟨held, hpending⟩
    · exact .gone (hsame.trans hgone)
    · exact absurd hpending (hheard held)
  | answered b hfull hb =>
    refine .answered b (hsame ▸ hfull) ?_
    exact hb.mono (List.subset_append_left es now) Call.target_receive Call.key_receive
  | lost op hop hlost =>
    exact .lost op (Call.target_receive.trans hop) (Or.imp hsame.trans hsame.trans hlost)

/-- Whoever is answered is accounted for, whether or not the answer still counts. -/
theorem Accounts.receive {a : Answer} (h : s.Accounts es c call)
    (ha : Answers (es ++ now) c call a) : t.Accounts (es ++ now) c (call.receive (.full a)) := by
  rcases call.status_receive (.full a) with ⟨held, _, hnow⟩ | ⟨hsame, hheard⟩
  · refine .answered a (by rw [hnow]; rfl) ?_
    exact ha.mono (List.Subset.refl _) Call.target_receive Call.key_receive
  · exact h.unmoved hsame hheard

theorem Accounts.receipt_cases (h : s.Accounts es c call) : call.status.receipt = .empty ∨
    (∃ a, call.status.receipt = .full a ∧ Answers es c call a) ∨
    (call.status.receipt = .dropped ∧ call.Dropped ∧ ∃ op, call.target = .store op) := by
  cases h with
  | gone hgone =>
    left
    rw [hgone]
    rfl
  | underway hopen => exact Or.inl hopen
  | answered a hfull ha => exact Or.inr (Or.inl ⟨a, hfull, ha⟩)
  | lost op hop hlost => exact Or.inr (Or.inr ⟨hlost.receipt, hlost, op, hop⟩)

theorem Accounts.answers {a : Answer} (h : s.Accounts es c call)
    (hfull : call.status.receipt = .full a) : Answers es c call a := by
  rcases h.receipt_cases with hopen | ⟨b, hfull', hb⟩ | ⟨hdropped, _⟩
  · cases hfull.symm.trans hopen
  · obtain rfl := Slot.full.inj (hfull.symm.trans hfull')
    exact hb
  · cases hfull.symm.trans hdropped

/-- A caller that hears that no answer will come has made a call on the store. -/
theorem Accounts.of_dropped (h : s.Accounts es c call) (hdropped : call.status.receipt = .dropped) :
    call.Dropped ∧ ∃ op, call.target = .store op := by
  rcases h.receipt_cases with hopen | ⟨b, hfull, _⟩ | ⟨_, hlost⟩
  · cases hdropped.symm.trans hopen
  · cases hdropped.symm.trans hfull
  · exact hlost

theorem Accounts.unspent (h : s.Accounts es c call) : call.status.receipt ≠ .spent := by
  intro hspent
  rcases h.receipt_cases with hopen | ⟨b, hfull, _⟩ | ⟨hdropped, _⟩
  · cases hspent.symm.trans hopen
  · cases hspent.symm.trans hfull
  · cases hspent.symm.trans hdropped

/-- A caller of the store is told of its request's fate. -/
theorem Accounts.hear {op : Operation} (h : s.Accounts es c call)
    (htarget : call.target = .store op) (f : Option Fate) :
    t.Accounts (es ++ now) c (call.hear f) := by
  cases f with
  | none =>
    refine h.mono fun hthere => ?_
    rwa [carries_of_store htarget] at hthere ⊢
  | some f =>
    cases f with
    | answered r => exact h.receive ⟨op, htarget⟩
    | discarded =>
      have hhear : call.hear (some .discarded) = call.receive .dropped := rfl
      rw [hhear]
      rcases call.status_receive .dropped with ⟨held, hopen, hnow⟩ | ⟨hsame, hheard⟩
      · cases h with
        | gone hgone =>
          rw [hopen] at hgone
          cases hgone
        | underway _ hthere =>
          -- a call on the store is never held
          rw [carries_of_store htarget, hopen] at hthere
          cases hthere
          exact .lost op (Call.target_receive.trans htarget) (Or.inl hnow)
        | answered b hfull =>
          rw [hopen] at hfull
          cases hfull
        | lost op' _ hlost =>
          have hdropped := hlost.receipt
          rw [hopen] at hdropped
          cases hdropped
      · exact h.unmoved hsame hheard

end Cluster

end Custody
