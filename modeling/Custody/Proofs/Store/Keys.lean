import Mathlib
import Custody.Store.Basic

/-!
# A request, key by key

What the store decides about a request depends on one key only, and nothing about any other key
changes. The verdict is read off the operation, the ownership flag, the value and the waiter;
the value, the ownership flag and the waiter after the request are read off the verdict.
-/

namespace Custody

variable {ρ : Type} {present : ρ → Bool} {s : Store ρ} {r : Request ρ} {k : Key}

namespace Store

theorem contains_values (s : Store ρ) (k : Key) : s.values.contains k = (s.value k).isSome := by
  simp [value]

/-- What a write that is accepted does with the key it releases. -/
def handover (present : ρ → Bool) (s : Store ρ) (k : Key) : Handover ρ :=
  match s.waiter k with
  | none => .freed
  | some next => if present next then .passed next else .vanished next

/-- Only a waiter that can be reached takes the key over. -/
theorem waiter_of_passed {next : ρ} (h : s.handover present k = .passed next) :
    s.waiter k = some next ∧ present next = true := by
  unfold handover at h
  split at h
  · cases h
  · rename_i x hwaiter
    split at h
    · rename_i hpresent
      obtain rfl := Handover.passed.inj h
      exact ⟨hwaiter, hpresent⟩
    · cases h

theorem waiter_of_vanished {next : ρ} (h : s.handover present k = .vanished next) :
    s.waiter k = some next := by
  unfold handover at h
  split at h
  · cases h
  · rename_i x hwaiter
    split at h
    · cases h
    · obtain rfl := Handover.vanished.inj h
      exact hwaiter

theorem verdict_read (h : r.op = .read) :
    (s.handle present r).2 = if s.isOwned r.key then .parked (s.waiter r.key)
      else .granted ((s.value r.key).getD 0) := by
  simp only [handle, h, read]
  split <;> rfl

theorem verdict_write {v : Value} (h : r.op = .write v) :
    (s.handle present r).2 = if (s.value r.key).isSome then .accepted v (s.handover present r.key)
      else .refused := by
  simp only [handle, h, write, contains_values, handover]
  split
  · cases s.waiter r.key with
    | none => rfl
    | some next => cases hp : present next <;> simp [hp]
  · rfl

theorem verdict_unsupported {name : String} (h : r.op = .unsupported name) :
    (s.handle present r).2 = .refused := by
  simp [handle, h]

/-- The store looks for one requester only: whoever waits for the key of a write it accepts. -/
theorem handle_congr {present' : ρ → Bool}
    (h : ∀ v n, (s.handle present r).2 = .accepted v n → ∀ x, s.waiter r.key = some x →
      present x = present' x) : s.handle present r = s.handle present' r := by
  cases hop : r.op with
  | read => simp only [handle, hop]
  | write v =>
    by_cases hvalue : s.values.contains r.key
    · have hsame : ∀ x, s.waiter r.key = some x → present x = present' x := by
        refine h v (s.handover present r.key) ?_
        rw [verdict_write hop, if_pos (contains_values s r.key ▸ hvalue)]
      simp only [handle, hop, write, hvalue, if_true]
      cases hwaiter : s.waiter r.key with
      | none => rfl
      | some next => simp only [hsame next hwaiter]
    · simp only [handle, hop, write, hvalue, if_false, Bool.false_eq_true]
  | unsupported name => simp only [handle, hop]

theorem op_of_granted {v : Value} (h : (s.handle present r).2 = .granted v) :
    r.op = .read ∧ s.isOwned r.key = false ∧ v = (s.value r.key).getD 0 := by
  cases hop : r.op with
  | read =>
    rw [verdict_read hop] at h
    split at h
    · cases h
    · rename_i howned
      exact ⟨rfl, by simpa using howned, (Verdict.granted.inj h).symm⟩
  | write v =>
    rw [verdict_write hop] at h
    split at h
    · cases h
    · cases h
  | unsupported name =>
    rw [verdict_unsupported hop] at h
    cases h

theorem op_of_parked {d : Option ρ} (h : (s.handle present r).2 = .parked d) :
    r.op = .read ∧ s.isOwned r.key = true ∧ d = s.waiter r.key := by
  cases hop : r.op with
  | read =>
    rw [verdict_read hop] at h
    split at h
    · rename_i howned
      exact ⟨rfl, howned, (Verdict.parked.inj h).symm⟩
    · cases h
  | write v =>
    rw [verdict_write hop] at h
    split at h
    · cases h
    · cases h
  | unsupported name =>
    rw [verdict_unsupported hop] at h
    cases h

theorem op_of_accepted {v : Value} {n : Handover ρ}
    (h : (s.handle present r).2 = .accepted v n) :
    r.op = .write v ∧ (s.value r.key).isSome ∧ n = s.handover present r.key := by
  cases hop : r.op with
  | read =>
    rw [verdict_read hop] at h
    split at h
    · cases h
    · cases h
  | write u =>
    rw [verdict_write hop] at h
    split at h
    · rename_i hvalue
      obtain ⟨rfl, rfl⟩ := Verdict.accepted.inj h
      exact ⟨rfl, hvalue, rfl⟩
    · cases h
  | unsupported name =>
    rw [verdict_unsupported hop] at h
    cases h

/-- Whoever a write hands its key to was parked behind it. -/
theorem waiter_of_accepted {v : Value} {next : ρ}
    (h : (s.handle present r).2 = .accepted v (.passed next)) : s.waiter r.key = some next := by
  obtain ⟨_, _, hnext⟩ := op_of_accepted h
  exact (waiter_of_passed hnext.symm).1

theorem op_of_refused (h : (s.handle present r).2 = .refused) :
    r.op ≠ .read ∧ ∀ v, r.op = .write v → s.value r.key = none := by
  cases hop : r.op with
  | read =>
    rw [verdict_read hop] at h
    split at h
    · cases h
    · cases h
  | write u =>
    rw [verdict_write hop] at h
    split at h
    · cases h
    · rename_i hvalue
      exact ⟨by simp, fun _ _ => by simpa using hvalue⟩
  | unsupported name => exact ⟨by simp, by simp⟩

/-- A request that is turned down leaves the store as it was. -/
theorem handle_of_refused (h : (s.handle present r).2 = .refused) :
    (s.handle present r).1 = s := by
  obtain ⟨op, key, who⟩ := r
  cases op with
  | read => exact absurd rfl (op_of_refused h).1
  | write v =>
    have hnone := (op_of_refused h).2 v rfl
    simp only [handle, write, contains_values]
    rw [if_neg (by simp [hnone])]
  | unsupported name => rfl

/-! ## After the request -/

/-- A verdict that gives out a value gives out the one that the key has from now on. -/
theorem value_handle (k : Key) :
    (s.handle present r).1.value k = match (s.handle present r).2 with
      | .granted v | .accepted v _ => if r.key = k then some v else s.value k
      | _ => s.value k := by
  obtain ⟨op, key, who⟩ := r
  cases op with
  | read =>
    simp only [handle, read]
    split
    · rfl
    · simp [value, Std.ExtTreeMap.getElem?_insert]
  | write v =>
    simp only [handle, write]
    split
    · cases hw : s.waiter key with
      | none => simp [value, Std.ExtTreeMap.getElem?_insert]
      | some next => cases hp : present next <;> simp [value, hp, Std.ExtTreeMap.getElem?_insert]
    · rfl
  | unsupported name => rfl

theorem contains_insert_key (t : Std.ExtTreeSet Key) (key k : Key) :
    (t.insert key).contains k = if key = k then true else t.contains k := by
  by_cases hk : key = k
  · simp [Std.ExtTreeSet.contains_insert, hk]
  · have hne : compare key k ≠ .eq := by simpa using hk
    simp [Std.ExtTreeSet.contains_insert, hk, hne]

theorem contains_erase_key (t : Std.ExtTreeSet Key) (key k : Key) :
    (t.erase key).contains k = if key = k then false else t.contains k := by
  by_cases hk : key = k
  · simp [Std.ExtTreeSet.contains_erase, hk]
  · have hne : compare key k ≠ .eq := by simpa using hk
    simp [Std.ExtTreeSet.contains_erase, hk, hne]

theorem isOwned_handle (k : Key) :
    (s.handle present r).1.isOwned k = match (s.handle present r).2 with
      | .granted _ | .accepted _ (.passed _) => if r.key = k then true else s.isOwned k
      | .accepted _ _ => if r.key = k then false else s.isOwned k
      | _ => s.isOwned k := by
  obtain ⟨op, key, who⟩ := r
  cases op with
  | read =>
    simp only [handle, read]
    split
    · rfl
    · simp only [isOwned, contains_insert_key]
  | write v =>
    simp only [handle, write]
    split
    · cases hw : s.waiter key with
      | none => simp only [isOwned, contains_erase_key]
      | some next =>
        cases hp : present next with
        | false => simp only [isOwned, hp, contains_erase_key, Bool.false_eq_true, if_false]
        | true => simp only [isOwned, hp, contains_insert_key, if_true]
    · rfl
  | unsupported name => rfl

theorem waiter_handle (k : Key) :
    (s.handle present r).1.waiter k = match (s.handle present r).2 with
      | .parked _ => if r.key = k then some r.who else s.waiter k
      | .accepted _ _ => if r.key = k then none else s.waiter k
      | _ => s.waiter k := by
  obtain ⟨op, key, who⟩ := r
  cases op with
  | read =>
    simp only [handle, read]
    split
    · simp [waiter, Std.ExtTreeMap.getElem?_insert]
    · rfl
  | write v =>
    simp only [handle, write]
    split
    · cases hw : s.waiter key with
      | none =>
        by_cases hk : key = k
        · subst hk
          simpa [waiter] using hw
        · simp [waiter, hk]
      | some next => cases hp : present next <;> simp [waiter, hp, Std.ExtTreeMap.getElem?_erase]
    · rfl
  | unsupported name => rfl

/-! ## What a request leaves as it was -/

theorem value_stays (k : Key) (h : (s.value k).isSome) :
    ((s.handle present r).1.value k).isSome := by
  rw [value_handle]
  split
  · split
    · rfl
    · exact h
  · split
    · rfl
    · exact h
  · exact h

/-- A key changes hands only in a free grant or an accepted write of its own. -/
theorem isOwned_cases (h : (s.handle present r).1.isOwned k = true) :
    s.isOwned k = true ∨ (r.key = k ∧ ((∃ v, (s.handle present r).2 = .granted v) ∨
      ∃ v next, (s.handle present r).2 = .accepted v (.passed next))) := by
  rw [isOwned_handle] at h
  split at h
  · rename_i v hv
    by_cases hkey : r.key = k
    · exact Or.inr ⟨hkey, Or.inl ⟨v, hv⟩⟩
    · exact Or.inl (by simpa [hkey] using h)
  · rename_i v next hv
    by_cases hkey : r.key = k
    · exact Or.inr ⟨hkey, Or.inr ⟨v, next, hv⟩⟩
    · exact Or.inl (by simpa [hkey] using h)
  · by_cases hkey : r.key = k
    · simp [hkey] at h
    · exact Or.inl (by simpa [hkey] using h)
  · exact Or.inl h

/-- Who waits after a request waited before, in a place left alone, or has just been parked. -/
theorem waiter_cases {x : ρ} (h : (s.handle present r).1.waiter k = some x) :
    (s.waiter k = some x ∧ (r.key = k → ∀ d v n, (s.handle present r).2 ≠ .parked d ∧
        (s.handle present r).2 ≠ .accepted v n)) ∨
      (r.key = k ∧ r.who = x ∧ r.op = .read ∧
        (s.handle present r).2 = .parked (s.waiter k)) := by
  rw [waiter_handle] at h
  cases hv : (s.handle present r).2 with
  | granted v =>
    rw [hv] at h
    exact Or.inl ⟨h, by simp⟩
  | parked d =>
    simp only [hv] at h
    obtain ⟨hread, _, hd⟩ := op_of_parked hv
    by_cases hkey : r.key = k
    · rw [if_pos hkey] at h
      subst hkey
      exact Or.inr ⟨rfl, Option.some.inj h, hread, by rw [hd]⟩
    · rw [if_neg hkey] at h
      exact Or.inl ⟨h, fun hk => absurd hk hkey⟩
  | accepted v n =>
    simp only [hv] at h
    by_cases hkey : r.key = k
    · rw [if_pos hkey] at h
      cases h
    · rw [if_neg hkey] at h
      exact Or.inl ⟨h, fun hk => absurd hk hkey⟩
  | refused =>
    rw [hv] at h
    exact Or.inl ⟨h, by simp⟩

/-- A key that keeps its waiter stays owned. -/
theorem isOwned_stays (howned : s.isOwned k = true)
    (hsame : r.key = k → ∀ v n, (s.handle present r).2 ≠ .accepted v n) :
    (s.handle present r).1.isOwned k = true := by
  rw [isOwned_handle]
  cases hv : (s.handle present r).2 with
  | granted v => simp [howned]
  | parked d => exact howned
  | accepted v n =>
    have hkey : r.key ≠ k := fun hkey => hsame hkey v n hv
    cases n <;> simp [hkey, howned]
  | refused => exact howned

/-- An owned key has a value, if it was so before. -/
theorem valued_handle (valued : ∀ k, s.isOwned k = true → (s.value k).isSome) (k : Key)
    (howned : (s.handle present r).1.isOwned k = true) :
    ((s.handle present r).1.value k).isSome := by
  rcases isOwned_cases howned with hbefore | ⟨rfl, ⟨v, hv⟩ | ⟨v, next, hv⟩⟩
  · exact value_stays k (valued k hbefore)
  · simp [value_handle, hv]
  · simp [value_handle, hv]

end Store

end Custody
