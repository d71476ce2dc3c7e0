import Custody.Proofs.History

/-!
# Counting puts

The store has counted a put as soon as it has accepted it. When worker `j` has put `n` times, it has
added `n` times its delta, whatever the order in which the workers took their turns.
-/

namespace Custody

/-- The store accepts a write of client `j`. -/
def Event.wroteBy (j : Nat) : Event → Bool
  | served r (.accepted _ _) => r.who == .client j
  | _ => false

theorem wroteBy_served {r : Request Requester} {v : Verdict Requester} {j : Nat} :
    (Event.served r v).wroteBy j = true ↔ r.who = .client j ∧ ∃ u n, v = .accepted u n := by
  cases v with
  | accepted u n => simp [Event.wroteBy]
  | granted u => simp [Event.wroteBy]
  | parked d => simp [Event.wroteBy]
  | refused => simp [Event.wroteBy]

def writesBy (es : List Event) (j : Nat) : Nat := es.countP (·.wroteBy j)

theorem writesBy_snoc (es : List Event) (e : Event) (j : Nat) :
    writesBy (es ++ [e]) j = writesBy es j + (e.wroteBy j).toNat := by
  rw [writesBy, List.countP_append, List.countP_singleton, writesBy]
  cases e.wroteBy j <;> rfl

theorem writesBy_of_wrote {es : List Event} {e : Event} {i : Nat} (h : e.wroteBy i = true)
    (hone : ∀ j, e.wroteBy j = true → j = i) :
    writesBy (es ++ [e]) = Function.update (writesBy es) i (writesBy es i + 1) := by
  funext j
  rw [writesBy_snoc]
  by_cases hji : j = i
  · subst hji
    rw [Function.update_self, h]
    rfl
  · rw [Function.update_of_ne hji, Bool.eq_false_iff.mpr fun hj => hji (hone j hj)]
    rfl

theorem writesBy_of_unwrote {es : List Event} {e : Event} (h : ∀ j, e.wroteBy j = false) :
    writesBy (es ++ [e]) = writesBy es := by
  funext j
  rw [writesBy_snoc, h j]
  rfl

/-- What has been added in all when worker `j + i` has put `done (j + i)` times. -/
def tally (done : Nat → Nat) : Nat → List Value → Int
  | _, [] => 0
  | j, delta :: rest => done j * delta.toInt + tally done (j + 1) rest

variable {deltas : List Value} {done done' : Nat → Nat} {i j : Nat}

theorem tally_congr (h : ∀ i, j ≤ i → i < j + deltas.length → done i = done' i) :
    tally done j deltas = tally done' j deltas := by
  induction deltas generalizing j with
  | nil => rfl
  | cons delta rest ih =>
    rw [List.length_cons] at h
    have hrest := ih (j := j + 1) fun i hji hi => h i (by omega) (by omega)
    rw [tally, tally, h j (Nat.le_refl j) (by omega), hrest]

theorem tally_of_even {n : Nat} (h : ∀ i, j ≤ i → i < j + deltas.length → done i = n) :
    tally done j deltas = n * (deltas.map Int64.toInt).sum := by
  induction deltas generalizing j with
  | nil => simp [tally]
  | cons delta rest ih =>
    rw [List.length_cons] at h
    have hrest := ih (j := j + 1) fun i hji hi => h i (by omega) (by omega)
    rw [tally, h j (Nat.le_refl j) (by omega), hrest, List.map_cons, List.sum_cons]
    ring

/-- One more put adds one more delta. -/
theorem tally_bump (done : Nat → Nat) (j : Nat) {delta : Value} (h : deltas[i]? = some delta) :
    tally (Function.update done (j + i) (done (j + i) + 1)) j deltas =
      tally done j deltas + delta.toInt := by
  induction deltas generalizing i j with
  | nil => cases h
  | cons first rest ih =>
    cases i with
    | zero =>
      obtain rfl := Option.some.inj h
      have hrest : tally (Function.update done j (done j + 1)) (j + 1) rest =
          tally done (j + 1) rest := by
        refine tally_congr fun i hi _ => ?_
        rw [Function.update_of_ne (by omega)]
      rw [Nat.add_zero, tally, tally, hrest, Function.update_self]
      push_cast
      ring
    | succ i =>
      have hrest := ih (i := i) (j + 1) h
      rw [show j + (i + 1) = j + 1 + i by omega, tally, tally, hrest]
      rw [Function.update_of_ne (by omega)]
      ring

end Custody
