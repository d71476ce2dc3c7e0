import Custody.Proofs.Store.Keys

/-!
# What a store has been asked

A store is visited by one request after another. Who can be reached may differ from visit to
visit in any way, so requesters may go away whenever they like. Whatever the visits, a key with a
waiter is owned, a key that is owned has a value, and no key loses its value again.
-/

namespace Custody

variable {ρ : Type}

/-- A request, and who can be reached while the store decides on it. -/
structure Visit (ρ : Type) where
  request : Request ρ
  present : ρ → Bool

namespace Store

/-- The store after a list of visits. -/
def after (s : Store ρ) : List (Visit ρ) → Store ρ
  | [] => s
  | v :: rest => (s.handle v.present v.request).1.after rest

/-- What was asked, and what the store decided each time. -/
def record (s : Store ρ) : List (Visit ρ) → List (Request ρ × Verdict ρ)
  | [] => []
  | v :: rest =>
    (v.request, (s.handle v.present v.request).2) ::
      (s.handle v.present v.request).1.record rest

/-- The store after a list of visits, when it was empty before them. -/
def reached (visits : List (Visit ρ)) : Store ρ := after {} visits

variable {present : ρ → Bool} {s : Store ρ} {r : Request ρ} {k : Key}

@[simp] theorem after_nil (s : Store ρ) : s.after [] = s := rfl

theorem after_cons (s : Store ρ) (v : Visit ρ) (rest : List (Visit ρ)) :
    s.after (v :: rest) = (s.handle v.present v.request).1.after rest := rfl

@[simp] theorem record_nil (s : Store ρ) : s.record [] = [] := rfl

theorem record_cons (s : Store ρ) (v : Visit ρ) (rest : List (Visit ρ)) :
    s.record (v :: rest) = (v.request, (s.handle v.present v.request).2) ::
      (s.handle v.present v.request).1.record rest := rfl

theorem after_append (s : Store ρ) (early late : List (Visit ρ)) :
    s.after (early ++ late) = (s.after early).after late := by
  induction early generalizing s with
  | nil => rfl
  | cons v rest ih =>
    rw [List.cons_append, after_cons, after_cons]
    exact ih _

theorem record_append (s : Store ρ) (early late : List (Visit ρ)) :
    s.record (early ++ late) = s.record early ++ (s.after early).record late := by
  induction early generalizing s with
  | nil => rfl
  | cons v rest ih => rw [List.cons_append, record_cons, record_cons, ih, after_cons,
      List.cons_append]

@[simp] theorem length_record (s : Store ρ) (visits : List (Visit ρ)) :
    (s.record visits).length = visits.length := by
  induction visits generalizing s with
  | nil => rfl
  | cons v rest ih => rw [record_cons, List.length_cons, ih, List.length_cons]

@[simp] theorem reached_nil : reached ([] : List (Visit ρ)) = {} := rfl

theorem reached_append (early late : List (Visit ρ)) :
    reached (early ++ late) = (reached early).after late := after_append {} early late

theorem reached_snoc (visits : List (Visit ρ)) (v : Visit ρ) :
    reached (visits ++ [v]) = ((reached visits).handle v.present v.request).1 :=
  reached_append visits [v]

theorem record_snoc (visits : List (Visit ρ)) (v : Visit ρ) :
    record {} (visits ++ [v]) = record {} visits ++
      [(v.request, ((reached visits).handle v.present v.request).2)] :=
  record_append {} visits [v]

/-- What holds of an empty store and is kept by every visit holds of every store. -/
theorem reached_induction {P : List (Visit ρ) → Store ρ → Prop} (start : P [] {})
    (keeps : ∀ visits v s, P visits s → P (visits ++ [v]) (s.handle v.present v.request).1)
    (visits : List (Visit ρ)) : P visits (reached visits) := by
  induction visits using List.reverseRecOn with
  | nil => exact start
  | append_singleton visits v ih =>
    rw [reached_snoc]
    exact keeps visits v _ ih

/-! ## The tables agree -/

structure Sound (s : Store ρ) : Prop where
  owned : ∀ k x, s.waiter k = some x → s.isOwned k = true
  valued : ∀ k, s.isOwned k = true → (s.value k).isSome

theorem sound_empty : Sound ({} : Store ρ) where
  owned := by simp [waiter]
  valued := by simp [isOwned]

theorem Sound.handle (sound : Sound s) : Sound (s.handle present r).1 where
  owned k x hx := by
    rcases waiter_cases hx with ⟨hbefore, hsame⟩ | ⟨rfl, _, _, hv⟩
    · exact isOwned_stays (sound.owned k x hbefore) fun hkey v n => (hsame hkey none v n).2
    · have howned := (op_of_parked hv).2.1
      exact isOwned_stays howned fun _ v n haccepted => by simp [hv] at haccepted
  valued := valued_handle sound.valued

theorem sound_reached (visits : List (Visit ρ)) : Sound (reached visits) :=
  reached_induction (P := fun _ s => Sound s) sound_empty (fun _ _ _ sound => sound.handle) visits

/-- A write of a key that somebody waits for is never turned down. -/
theorem Sound.accepts {v : Value} {x : ρ} (sound : Sound s) (present : ρ → Bool)
    (hop : r.op = .write v) (hwaits : s.waiter r.key = some x) :
    (s.handle present r).2 =
      .accepted v (if present x then .passed x else .vanished x) := by
  have hvalue := sound.valued r.key (sound.owned r.key x hwaits)
  rw [verdict_write hop, if_pos hvalue, handover, hwaits]

theorem hasWaiter_eq (s : Store ρ) (k : Key) : s.hasWaiter k = (s.waiter k).isSome := by
  simp [hasWaiter, waiter]

/-- Nobody is parked behind a key that is free. -/
theorem Sound.unawaited (sound : Sound s) (hfree : s.isOwned k = false) :
    s.hasWaiter k = false := by
  rw [hasWaiter_eq, Option.isSome_eq_false_iff, Option.isNone_iff_eq_none]
  by_contra hwaits
  obtain ⟨x, hx⟩ := Option.ne_none_iff_exists'.mp hwaits
  rw [sound.owned k x hx] at hfree
  cases hfree

/-- A write that finds nobody to hand its key to frees the key. -/
theorem isOwned_of_released {v : Value} {n : Handover ρ}
    (h : (s.handle present r).2 = .accepted v n) (hn : ∀ next, n ≠ .passed next) :
    (s.handle present r).1.isOwned r.key = false := by
  rw [isOwned_handle, h]
  cases n with
  | freed => exact if_pos rfl
  | passed next => exact absurd rfl (hn next)
  | vanished next => exact if_pos rfl

theorem value_after (visits : List (Visit ρ)) (h : (s.value k).isSome) :
    ((s.after visits).value k).isSome := by
  induction visits generalizing s with
  | nil => exact h
  | cons v rest ih => exact ih (value_stays k h)

/-- A waiter's key is owned, an owned key has a value, and values are never lost. So a write is
accepted where somebody waits, a free grant overtakes nobody, and a release leaves nobody behind. -/
theorem tables_agree (visits : List (Visit ρ)) :
    (∀ k, (reached visits).hasWaiter k = true → (reached visits).isOwned k = true) ∧
    (∀ k, (reached visits).isOwned k = true → ((reached visits).value k).isSome) ∧
    (∀ early, early <+: visits → ∀ k, ((reached early).value k).isSome →
      ((reached visits).value k).isSome) ∧
    ∀ w : Visit ρ,
      (∀ u, w.request.op = .write u → (reached visits).hasWaiter w.request.key = true →
        ((reached visits).handle w.present w.request).2 ≠ .refused) ∧
      (∀ v, ((reached visits).handle w.present w.request).2 = .granted v →
        (reached visits).hasWaiter w.request.key = false) ∧
      ∀ v n, ((reached visits).handle w.present w.request).2 = .accepted v n →
        (∀ next, n ≠ .passed next) →
          (reached (visits ++ [w])).isOwned w.request.key = false ∧
            (reached (visits ++ [w])).hasWaiter w.request.key = false := by
  have sound := sound_reached visits
  have waits : ∀ {k}, (reached visits).hasWaiter k = true →
      ∃ x, (reached visits).waiter k = some x := by
    intro k hk
    rw [hasWaiter_eq] at hk
    exact Option.isSome_iff_exists.mp hk
  refine ⟨?_, sound.valued, ?_, fun w => ⟨?_, ?_, ?_⟩⟩
  · intro k hk
    obtain ⟨x, hx⟩ := waits hk
    exact sound.owned k x hx
  · rintro early ⟨late, rfl⟩ k hvalue
    rw [reached_append]
    exact value_after late hvalue
  · intro u hop hk
    obtain ⟨x, hx⟩ := waits hk
    rw [sound.accepts w.present hop hx]
    simp
  · intro v hgranted
    exact sound.unawaited (op_of_granted hgranted).2.1
  · intro v n haccepted hn
    have hfree := isOwned_of_released haccepted hn
    rw [← reached_snoc] at hfree
    exact ⟨hfree, (sound_reached _).unawaited hfree⟩

/-- The key of the only waiter, who has gone away, is freed by the next write. -/
theorem tables_agree_of_vanished :
    (reached [⟨⟨.read, "k", 0⟩, fun _ => true⟩,
        ⟨⟨.read, "k", 1⟩, fun _ => true⟩]).isOwned "k" = true ∧
      (reached [⟨⟨.read, "k", 0⟩, fun _ => true⟩, ⟨⟨.read, "k", 1⟩, fun _ => true⟩,
        ⟨⟨.write 7, "k", 2⟩, fun x => x != 1⟩]).hasWaiter "k" = false := by
  obtain ⟨hwaits, _, _, hnext⟩ := tables_agree
    [⟨⟨.read, "k", 0⟩, fun _ => true⟩, ⟨⟨.read, "k", 1⟩, fun _ => true⟩]
  obtain ⟨_, _, hrelease⟩ := hnext ⟨⟨.write 7, "k", 2⟩, fun x => x != 1⟩
  exact ⟨hwaits "k" rfl, (hrelease 7 (.vanished 1) rfl (by simp)).2⟩

end Store

end Custody
