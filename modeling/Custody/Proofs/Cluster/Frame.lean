import Mathlib
import Custody.Cluster.Run

/-!
# What an update leaves alone

A cluster has three parts, and each of its elementary updates touches one of them. Members and
calls are looked up by their place, and an update in one place is not seen from another.
-/

namespace Custody

namespace Cluster

variable (s : Cluster) (i j id : Nat) (f : Member → Member) (g : Call → Call)

@[simp] theorem keeper_onMember : (s.onMember i f).keeper = s.keeper := rfl

@[simp] theorem calls_onMember : (s.onMember i f).calls = s.calls := rfl

@[simp] theorem keeper_onCall : (s.onCall id g).keeper = s.keeper := rfl

@[simp] theorem members_onCall : (s.onCall id g).members = s.members := rfl

@[simp] theorem members_send (c : Command) : (s.send c).members = s.members := rfl

@[simp] theorem calls_send (c : Command) : (s.send c).calls = s.calls := rfl

@[simp] theorem store_send (c : Command) : (s.send c).keeper.store = s.keeper.store := rfl

@[simp] theorem running_send (c : Command) : (s.send c).keeper.running = s.keeper.running := rfl

@[simp] theorem entries_send (c : Command) :
    (s.send c).keeper.inbox.entries = s.keeper.inbox.entries ++ [c] := rfl

theorem members_onMember :
    (s.onMember i f).members[j]? = if i = j then s.members[j]?.map f else s.members[j]? := by
  simp only [onMember, List.getElem?_modify]
  split <;> simp

theorem calls_onCall :
    (s.onCall id g).calls[j]? = if id = j then s.calls[j]?.map g else s.calls[j]? := by
  simp only [onCall, List.getElem?_modify]
  split <;> simp

/-- A member after a change in place `i`. -/
theorem onMember_cases {s : Cluster} {i j : Nat} {f : Member → Member} {m' : Member}
    (h : (s.onMember i f).members[j]? = some m') :
    (i = j ∧ ∃ m, s.members[j]? = some m ∧ m' = f m) ∨ (i ≠ j ∧ s.members[j]? = some m') := by
  rw [members_onMember] at h
  split at h
  · rename_i hij
    obtain ⟨m, hm, rfl⟩ := Option.map_eq_some_iff.mp h
    exact Or.inl ⟨hij, m, hm, rfl⟩
  · rename_i hij
    exact Or.inr ⟨hij, h⟩

/-- A call after a change in place `id`. -/
theorem onCall_cases {s : Cluster} {id c : Nat} {g : Call → Call} {call' : Call}
    (h : (s.onCall id g).calls[c]? = some call') :
    (id = c ∧ ∃ call, s.calls[c]? = some call ∧ call' = g call) ∨
      (id ≠ c ∧ s.calls[c]? = some call') := by
  rw [calls_onCall] at h
  split at h
  · rename_i hc
    obtain ⟨call, hcall, rfl⟩ := Option.map_eq_some_iff.mp h
    exact Or.inl ⟨hc, call, hcall, rfl⟩
  · rename_i hc
    exact Or.inr ⟨hc, h⟩

@[simp] theorem length_calls_onCall : (s.onCall id g).calls.length = s.calls.length := by
  simp [onCall]

@[simp] theorem length_members_onMember : (s.onMember i f).members.length = s.members.length := by
  simp [onMember]

@[simp] theorem keeper_deliver (who : Requester) (news : Slot StoreReply) :
    (s.deliver who news).keeper = s.keeper := by
  cases who <;> rfl

end Cluster

/-! ## News of several requests -/

/-- The receiving end after its owner has heard of a fate, or of none. -/
def Slot.hear (slot : Slot StoreReply) : Option Fate → Slot StoreReply
  | none => slot
  | some f => slot.fill f.news

theorem Slot.hear_hear (slot : Slot StoreReply) (f : Fate) (later : Option Fate) :
    (slot.hear (some f)).hear later = slot.hear (some f) := by
  cases later with
  | none => rfl
  | some g => cases slot <;> cases f <;> rfl

def Work.hear (w : Work) (f : Option Fate) : Work := { w with answer := w.answer.hear f }

def Member.hear (m : Member) (f : Option Fate) : Member :=
  { m with work := m.work.map (·.hear f) }

def Call.hear (c : Call) (f : Option Fate) : Call :=
  match f with
  | none => c
  | some f => c.receive (f.news.map .store)

theorem Member.hear_some (m : Member) (f : Fate) : m.hear (some f) = m.receive f.news := rfl

theorem Member.hear_none (m : Member) : m.hear none = m := by
  obtain ⟨name, inbox, handle, running, cache, work⟩ := m
  cases work <;> rfl

theorem Member.hear_hear (m : Member) (f : Fate) (later : Option Fate) :
    (m.hear (some f)).hear later = m.hear (some f) := by
  obtain ⟨name, inbox, handle, running, cache, work⟩ := m
  cases work with
  | none => rfl
  | some w => simp [Member.hear, Work.hear, Slot.hear_hear]

theorem Call.hear_hear (c : Call) (f : Fate) (later : Option Fate) :
    (c.hear (some f)).hear later = c.hear (some f) := by
  obtain ⟨target, key, status⟩ := c
  cases later with
  | none => rfl
  | some g =>
    cases status with
    | pending held slot => cases slot <;> cases f <;> rfl
    | ended o => rfl
    | taken a => rfl
    | cancelled => rfl

namespace Cluster

/-- Tells everybody named in a list what became of their requests. -/
def tell (s : Cluster) (fates : List (Requester × Fate)) : Cluster :=
  fates.foldl (fun s f => s.deliver f.1 f.2.news) s

@[simp] theorem tell_nil (s : Cluster) : s.tell [] = s := rfl

theorem tell_cons (s : Cluster) (f : Requester × Fate) (rest : List (Requester × Fate)) :
    s.tell (f :: rest) = (s.deliver f.1 f.2.news).tell rest := rfl

@[simp] theorem keeper_tell (s : Cluster) (fates : List (Requester × Fate)) :
    (s.tell fates).keeper = s.keeper := by
  induction fates generalizing s with
  | nil => rfl
  | cons f rest ih => rw [tell_cons, ih, keeper_deliver]

@[simp] theorem length_members_tell (s : Cluster) (fates : List (Requester × Fate)) :
    (s.tell fates).members.length = s.members.length := by
  induction fates generalizing s with
  | nil => rfl
  | cons f rest ih =>
    rw [tell_cons, ih]
    cases f.1 with
    | client i => exact length_members_onMember s i _
    | caller c => rfl

@[simp] theorem length_calls_tell (s : Cluster) (fates : List (Requester × Fate)) :
    (s.tell fates).calls.length = s.calls.length := by
  induction fates generalizing s with
  | nil => rfl
  | cons f rest ih =>
    rw [tell_cons, ih]
    cases f.1 with
    | client i => rfl
    | caller c => exact length_calls_onCall s c _

theorem members_deliver (s : Cluster) (who : Requester) (f : Fate) (i : Nat) :
    (s.deliver who f.news).members[i]? =
      if who = .client i then s.members[i]?.map (·.hear (some f)) else s.members[i]? := by
  cases who with
  | client j =>
    simp only [deliver, members_onMember, Requester.client.injEq, Member.hear_some]
  | caller c => simp [deliver]

theorem calls_deliver (s : Cluster) (who : Requester) (f : Fate) (id : Nat) :
    (s.deliver who f.news).calls[id]? =
      if who = .caller id then s.calls[id]?.map (·.hear (some f)) else s.calls[id]? := by
  cases who with
  | client j => simp [deliver]
  | caller c => simp only [deliver, calls_onCall, Requester.caller.injEq, Call.hear]

/-- Whoever is named twice takes notice of the first time only. -/
theorem members_tell (s : Cluster) (fates : List (Requester × Fate)) (i : Nat) :
    (s.tell fates).members[i]? = s.members[i]?.map (·.hear (fates.lookup (.client i))) := by
  induction fates generalizing s with
  | nil => simp [Member.hear_none]
  | cons f rest ih =>
    obtain ⟨who, f⟩ := f
    rw [tell_cons, ih, members_deliver, List.lookup_cons]
    by_cases hwho : who = .client i
    · subst hwho
      simp [Function.comp_def, Member.hear_hear]
    · have hne : (Requester.client i == who) = false := by simpa using Ne.symm hwho
      simp [hwho, hne]

theorem calls_tell (s : Cluster) (fates : List (Requester × Fate)) (id : Nat) :
    (s.tell fates).calls[id]? = s.calls[id]?.map (·.hear (fates.lookup (.caller id))) := by
  induction fates generalizing s with
  | nil => simp [Call.hear]
  | cons f rest ih =>
    obtain ⟨who, f⟩ := f
    rw [tell_cons, ih, calls_deliver, List.lookup_cons]
    by_cases hwho : who = .caller id
    · subst hwho
      simp [Function.comp_def, Call.hear_hear]
    · have hne : (Requester.caller id == who) = false := by simpa using Ne.symm hwho
      simp [hwho, hne]

end Cluster

end Custody
