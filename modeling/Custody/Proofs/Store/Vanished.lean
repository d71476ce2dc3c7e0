import Custody.Proofs.Store.Visits

/-!
# Readers that are gone

A reader may have gone away when the store comes to give it its key. A write that finds such a
reader parked frees the key, and the next reader has it at once. A read of a free key is answered
without a look at who is there to hear it: a reader that is gone takes the key all the same. Nobody
has it to give back then, and every later reader is parked, until somebody writes the key who does
not own it.
-/

namespace Custody

variable {ρ : Type}

/-- The reader that a verdict on a request of `who` gives its key to, or would give it to if it were
there. -/
def Verdict.grantee? (who : ρ) : Verdict ρ → Option ρ
  | granted _ => some who
  | parked _ => none
  | accepted _ .freed => none
  | accepted _ (.passed next) => some next
  | accepted _ (.vanished next) => some next
  | refused => none

namespace Store

variable {present : ρ → Bool} {s : Store ρ} {r : Request ρ} {k : Key} {x : ρ}
  {visits : List (Visit ρ)}

/-- A key goes to the reader of a free key, or to the one a write finds parked. -/
theorem grantee_cases (h : (s.handle present r).2.grantee? r.who = some x) :
    (r.op = .read ∧ x = r.who ∧ ∃ v, (s.handle present r).2 = .granted v) ∨
      ∃ v, r.op = .write v ∧ s.waiter r.key = some x ∧ (s.value r.key).isSome := by
  cases hv : (s.handle present r).2 with
  | granted v =>
    rw [hv] at h
    exact Or.inl ⟨(op_of_granted hv).1, (Option.some.inj h).symm, v, rfl⟩
  | parked d =>
    rw [hv] at h
    cases h
  | accepted v n =>
    obtain ⟨hop, hvalue, hn⟩ := op_of_accepted hv
    rw [hv] at h
    cases n with
    | freed => cases h
    | passed next =>
      obtain rfl := Option.some.inj h
      exact Or.inr ⟨v, hop, (waiter_of_passed hn.symm).1, hvalue⟩
    | vanished next =>
      obtain rfl := Option.some.inj h
      exact Or.inr ⟨v, hop, waiter_of_vanished hn.symm, hvalue⟩
  | refused =>
    rw [hv] at h
    cases h

/-- A write whose reader is gone finds nobody to hand the key to. -/
theorem accepted_of_gone {v : Value} (hop : r.op = .write v) (hvalue : (s.value r.key).isSome)
    (hwaits : s.waiter r.key = some x) (hgone : present x = false) :
    (s.handle present r).2 = .accepted v (.vanished x) := by
  rw [verdict_write hop, if_pos hvalue, handover, hwaits]
  simp [hgone]

/-- Of the two ways to give a key to a reader that is gone, only the first leaves it owned. -/
theorem isOwned_of_gone (hgrant : (s.handle present r).2.grantee? r.who = some x)
    (hgone : present x = false) :
    (s.handle present r).1.isOwned r.key = true ↔ r.op = .read := by
  obtain ⟨hread, _, v, hv⟩ | ⟨v, hwrite, hwaits, hvalue⟩ := grantee_cases hgrant
  · simp [isOwned_handle, hv, hread]
  · have hv := accepted_of_gone hwrite hvalue hwaits hgone
    simp [isOwned_handle, hv, hwrite]

/-- Only a write of a key that is owned can free it. -/
theorem isOwned_after (howned : s.isOwned k = true)
    (hunwritten : ∀ y ∈ visits, y.request.key = k → ∀ v, y.request.op ≠ .write v) :
    (s.after visits).isOwned k = true := by
  induction visits generalizing s with
  | nil => exact howned
  | cons y rest ih =>
    have hstays : (s.handle y.present y.request).1.isOwned k = true := by
      refine isOwned_stays howned fun hkey v n haccepted => ?_
      exact hunwritten y List.mem_cons_self hkey v (op_of_accepted haccepted).1
    exact ih hstays fun z hz => hunwritten z (List.mem_cons_of_mem y hz)

theorem handover_to_gone {w : Visit ρ} (hop : w.request.op ≠ .read)
    (hgrant : ((reached visits).handle w.present w.request).2.grantee? w.request.who = some x)
    (hgone : w.present x = false) :
    (reached (visits ++ [w])).isOwned w.request.key = false ∧
      (reached (visits ++ [w])).hasWaiter w.request.key = false ∧
      ∃ v, w.request.op = .write v ∧ ∀ next : Visit ρ, next.request.op = .read →
        next.request.key = w.request.key →
          ((reached (visits ++ [w])).handle next.present next.request).2 = .granted v := by
  obtain ⟨hread, _⟩ | ⟨v, hwrite, hwaits, hvalue⟩ := grantee_cases hgrant
  · exact absurd hread hop
  have hv := accepted_of_gone hwrite hvalue hwaits hgone
  have hfree : (reached (visits ++ [w])).isOwned w.request.key = false := by
    rw [reached_snoc]
    exact isOwned_of_released hv (by simp)
  refine ⟨hfree, (sound_reached _).unawaited hfree, v, hwrite, fun next hnext hkey => ?_⟩
  rw [verdict_read hnext, hkey, hfree, reached_snoc, value_handle, hv]
  simp

theorem free_grant_to_gone {w : Visit ρ} (hop : w.request.op = .read)
    (hgrant : ((reached visits).handle w.present w.request).2.grantee? w.request.who = some x)
    (hgone : w.present x = false) {later : List (Visit ρ)}
    (hunwritten : ∀ y ∈ later, y.request.key = w.request.key → ∀ v, y.request.op ≠ .write v) :
    (reached (visits ++ w :: later)).isOwned w.request.key = true := by
  have howned : (reached (visits ++ [w])).isOwned w.request.key = true := by
    rw [reached_snoc]
    exact (isOwned_of_gone hgrant hgone).mpr hop
  have hsplit : visits ++ w :: later = (visits ++ [w]) ++ later := by simp
  rw [hsplit, reached_append]
  exact isOwned_after howned hunwritten

/-- A key that a write would hand to a reader that is gone is free after the write, and the next
reader has it. A free key that is read by somebody who is gone is owned from then on: whoever reads
it after that is parked, as long as nobody writes it, and such a write is accepted from anybody. -/
theorem gone_reader_takes_only_a_free_key (visits : List (Visit ρ)) (w : Visit ρ) {x : ρ}
    (hgrant : ((reached visits).handle w.present w.request).2.grantee? w.request.who = some x)
    (hgone : w.present x = false) :
    (w.request.op ≠ .read →
      (reached (visits ++ [w])).isOwned w.request.key = false ∧
      (reached (visits ++ [w])).hasWaiter w.request.key = false ∧
      ∃ v, w.request.op = .write v ∧ ∀ next : Visit ρ, next.request.op = .read →
        next.request.key = w.request.key →
          ((reached (visits ++ [w])).handle next.present next.request).2 = .granted v) ∧
    (w.request.op = .read → ∀ later : List (Visit ρ),
      (∀ y ∈ later, y.request.key = w.request.key → ∀ v, y.request.op ≠ .write v) →
      (reached (visits ++ w :: later)).isOwned w.request.key = true ∧
      ∀ next : Visit ρ, next.request.key = w.request.key →
        (next.request.op = .read → ∃ earlier,
          ((reached (visits ++ w :: later)).handle next.present next.request).2 =
            .parked earlier) ∧
        ∀ v, next.request.op = .write v → ∃ n,
          ((reached (visits ++ w :: later)).handle next.present next.request).2 =
            .accepted v n) := by
  refine ⟨fun hop => handover_to_gone hop hgrant hgone, fun hop later hunwritten => ?_⟩
  have howned := free_grant_to_gone hop hgrant hgone hunwritten
  refine ⟨howned, fun next hkey => ⟨fun hread => ?_, fun v hwrite => ?_⟩⟩
  · exact ⟨_, by rw [verdict_read hread, hkey, if_pos howned]⟩
  · have hvalue := (sound_reached (visits ++ w :: later)).valued w.request.key howned
    exact ⟨_, by rw [verdict_write hwrite, hkey, if_pos hvalue]⟩

/-- The only waiter is gone when its key is written, and the next reader has the key. A free key is
read by somebody who is gone, and the next reader waits for nobody. -/
theorem gone_reader_takes_only_a_free_key_of_two :
    ((reached [⟨⟨.read, "k", 0⟩, fun _ => true⟩, ⟨⟨.read, "k", 1⟩, fun _ => true⟩,
        ⟨⟨.write 7, "k", 0⟩, fun x => x != 1⟩]).isOwned "k" = false ∧
      ((reached [⟨⟨.read, "k", 0⟩, fun _ => true⟩, ⟨⟨.read, "k", 1⟩, fun _ => true⟩,
        ⟨⟨.write 7, "k", 0⟩, fun x => x != 1⟩]).handle (fun _ => true) ⟨.read, "k", 2⟩).2 =
          .granted 7) ∧
    ∃ earlier, ((reached [⟨⟨.read, "k", 0⟩, fun x => x != 0⟩,
      ⟨⟨.unsupported "delete", "k", 1⟩, fun x => x != 0⟩]).handle (fun x => x != 0)
        ⟨.read, "k", 2⟩).2 = .parked earlier := by
  constructor
  · obtain ⟨hreleased, _⟩ := gone_reader_takes_only_a_free_key
      [⟨⟨.read, "k", 0⟩, fun _ => true⟩, ⟨⟨.read, "k", 1⟩, fun _ => true⟩]
      ⟨⟨.write 7, "k", 0⟩, fun x => x != 1⟩ (x := 1) rfl rfl
    obtain ⟨hfree, _, v, hv, hnext⟩ := hreleased (by simp)
    obtain rfl := Operation.write.inj hv
    exact ⟨hfree, hnext ⟨⟨.read, "k", 2⟩, fun _ => true⟩ rfl rfl⟩
  · obtain ⟨_, htaken⟩ := gone_reader_takes_only_a_free_key []
      ⟨⟨.read, "k", 0⟩, fun x => x != 0⟩ (x := 0) rfl rfl
    obtain ⟨_, hparked⟩ := htaken rfl [⟨⟨.unsupported "delete", "k", 1⟩, fun x => x != 0⟩] (by simp)
    exact (hparked ⟨⟨.read, "k", 2⟩, fun x => x != 0⟩ rfl).1 rfl

/-- A key that is given to a reader that is gone is not always free afterwards. -/
theorem not_freed_of_gone_reader : ¬ ∀ (visits : List (Visit Nat)) (w : Visit Nat) (x : Nat),
    ((reached visits).handle w.present w.request).2.grantee? w.request.who = some x →
      w.present x = false → (reached (visits ++ [w])).isOwned w.request.key = false := by
  intro hfreed
  have hfree : (reached [⟨⟨.read, "k", 0⟩, fun _ => false⟩]).isOwned "k" = false :=
    hfreed [] ⟨⟨.read, "k", 0⟩, fun _ => false⟩ 0 rfl rfl
  have howned : (reached [(⟨⟨.read, "k", 0⟩, fun _ => false⟩ : Visit Nat)]).isOwned "k" = true :=
    rfl
  rw [howned] at hfree
  cases hfree

end Store

end Custody
