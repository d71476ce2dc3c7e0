import Custody.Proofs.Parking.Arrivals
import Custody.Proofs.Parking.Looks
import Custody.Proofs.Parking.Sights

/-!
# The wait for a parked reader

A wait is one more party beside the actors of a cluster and whoever calls them. In turn it asks for
a snapshot, waits for the call to end, decides on what it has seen and sleeps, until a look decides.
Everybody else may do whatever is possible meanwhile; but the wait holds the handle on the store,
and nobody else gives up the call that it waits for.
-/

namespace Custody

namespace Parking

/-- Where a wait stands. -/
inductive Stance where
  | asking
  | awaiting (c : Nat)
  | asleep (wake : Nat)
  | done (r : Result)
  deriving DecidableEq, Repr

/-- A wait in the midst of everything else. `asked` counts its requests for a snapshot. -/
structure Vigil where
  cluster : Cluster
  time : Nat
  stance : Stance := .asking
  looks : List Look := []
  asked : Nat := 0
  deriving DecidableEq

/-- What a snapshot call has come to. -/
def sighted? (s : Cluster) (c : Nat) : Option Sight :=
  match s.ended? c with
  | some (.answered (.snapshot shot)) => some (.shown shot)
  | some (.failed f) => some (.failed f)
  | _ => none

namespace Vigil

inductive Move where
  | other (l : Label)
  | tick (n : Nat)
  | proceed
  deriving DecidableEq, Repr

variable (k : Key) (start : Nat)

/-- One more look, at this time. -/
def glance (v : Vigil) (sight : Sight) : Vigil :=
  let look : Look := ⟨sight, v.time⟩
  let stance := match judge k start look with
    | some r => .done r
    | none => .asleep (v.time + pause)
  { v with stance, looks := v.looks ++ [look] }

/-- The wait's own next move; nothing while it has to wait, or when it is over. -/
def proceed (v : Vigil) : Option Vigil :=
  match v.stance with
  | .asking => do
    let cluster ← v.cluster.call .snapshot k
    return { v with cluster, stance := .awaiting v.cluster.calls.length, asked := v.asked + 1 }
  | .awaiting c => do return v.glance k start (← sighted? v.cluster c)
  | .asleep wake => if wake ≤ v.time then some { v with stance := .asking } else none
  | .done _ => none

/-- What nobody else can do before the wait is over. -/
def forbids (v : Vigil) (l : Label) : Bool :=
  match v.stance with
  | .done _ => false
  | .awaiting c => l == .act .closeStore || l == .act (.cancel c)
  | _ => l == .act .closeStore

def fire (v : Vigil) : Move → Option Vigil
  | .other l =>
    if v.forbids l then none else (v.cluster.step l).map fun (cluster, _) => { v with cluster }
  | .tick n => some { v with time := v.time + n }
  | .proceed => v.proceed k start

def run (v : Vigil) : List Move → Option Vigil
  | [] => some v
  | m :: rest => do (← v.fire k start m).run rest

/-- The wait begins now. -/
def begin (s : Cluster) : Vigil := { cluster := s, time := start }

/-- At some moment of the run, before look `n` and after it was asked for, this was the snapshot of
the store. -/
def Caught (v : Vigil) (moves : List Move) (n : Nat) (shot : Snapshot) : Prop :=
  ∃ early late u c, moves = early ++ late ∧ v.run k start early = some u ∧
    u.stance = .awaiting c ∧ u.looks.length = n ∧ shot = u.cluster.keeper.store.snapshot

variable {k start} {v u w : Vigil} {m : Move} {moves : List Move}

theorem run_append (v : Vigil) (early late : List Move) :
    v.run k start (early ++ late) = (v.run k start early).bind (·.run k start late) := by
  induction early generalizing v with
  | nil => rfl
  | cons m rest ih =>
    rw [List.cons_append, run, run]
    cases v.fire k start m with
    | none => rfl
    | some u => exact ih u

theorem run_snoc (v : Vigil) (moves : List Move) (m : Move) :
    v.run k start (moves ++ [m]) = (v.run k start moves).bind (·.fire k start m) := by
  rw [run_append]
  refine congrArg _ (funext fun u => ?_)
  simp only [run]
  cases u.fire k start m <;> rfl

/-- What holds when a wait begins and is kept by every move holds after every run. -/
theorem run_induction {P : List Move → Vigil → Prop} (hbegin : P [] v)
    (keeps : ∀ past u m w, v.run k start past = some u → P past u →
      u.fire k start m = some w → P (past ++ [m]) w)
    (h : v.run k start moves = some u) : P moves u := by
  induction moves using List.reverseRecOn generalizing u with
  | nil =>
    obtain rfl := Option.some.inj h
    exact hbegin
  | append_singleton past m ih =>
    rw [run_snoc] at h
    obtain ⟨w, hpast, hfire⟩ := Option.bind_eq_some_iff.mp h
    exact keeps past w m u hpast (ih hpast) hfire

theorem Caught.mono {n : Nat} {shot : Snapshot} (h : Caught k start v moves n shot) (m : Move) :
    Caught k start v (moves ++ [m]) n shot := by
  obtain ⟨early, late, u, c, rfl, hrun, hstance, hlen, hshot⟩ := h
  exact ⟨early, late ++ [m], u, c, List.append_assoc _ _ _, hrun, hstance, hlen, hshot⟩

theorem caught_now {c : Nat} (h : v.run k start moves = some u) (hstance : u.stance = .awaiting c)
    (m : Move) :
    Caught k start v (moves ++ [m]) u.looks.length u.cluster.keeper.store.snapshot :=
  ⟨moves, [m], u, c, rfl, h, hstance, rfl, rfl⟩

/-! ## One move -/

/-- What a move of the wait itself can be. -/
inductive Proceeds (k : Key) (start : Nat) (v : Vigil) : Vigil → Prop where
  | asked (cluster : Cluster) (hstance : v.stance = .asking)
      (hcall : v.cluster.call .snapshot k = some cluster) :
      Proceeds k start v
        { v with cluster, stance := .awaiting v.cluster.calls.length, asked := v.asked + 1 }
  | slept (c : Nat) (sight : Sight) (hstance : v.stance = .awaiting c)
      (hsight : sighted? v.cluster c = some sight) (hopen : Look.Open k start ⟨sight, v.time⟩) :
      Proceeds k start v
        { v with stance := .asleep (v.time + pause), looks := v.looks ++ [⟨sight, v.time⟩] }
  | ended (c : Nat) (sight : Sight) (r : Result) (hstance : v.stance = .awaiting c)
      (hsight : sighted? v.cluster c = some sight)
      (hjudge : judge k start ⟨sight, v.time⟩ = some r) :
      Proceeds k start v { v with stance := .done r, looks := v.looks ++ [⟨sight, v.time⟩] }
  | woke (wake : Nat) (hstance : v.stance = .asleep wake) (htime : wake ≤ v.time) :
      Proceeds k start v { v with stance := .asking }

theorem proceed_cases (h : v.proceed k start = some w) : Proceeds k start v w := by
  unfold proceed at h
  split at h
  · rename_i hstance
    obtain ⟨cluster, hcall, h⟩ := Option.bind_eq_some_iff.mp h
    obtain rfl := Option.some.inj h
    exact .asked cluster hstance hcall
  · rename_i c hstance
    obtain ⟨sight, hsight, h⟩ := Option.bind_eq_some_iff.mp h
    obtain rfl := Option.some.inj h
    rw [glance]
    obtain ⟨_, _, hjudge⟩ | ⟨_, _, _, hjudge⟩ | ⟨_, _, hjudge⟩ | ⟨hopen, hjudge⟩ :=
      judge_cases k start ⟨sight, v.time⟩
    · simp only [hjudge]
      exact .ended c sight _ hstance hsight hjudge
    · simp only [hjudge]
      exact .ended c sight _ hstance hsight hjudge
    · simp only [hjudge]
      exact .ended c sight _ hstance hsight hjudge
    · simp only [hjudge]
      exact .slept c sight hstance hsight hopen
  · rename_i wake hstance
    split at h
    · rename_i htime
      obtain rfl := Option.some.inj h
      exact .woke wake hstance htime
    · cases h
  · cases h

theorem other_cases {l : Label} (h : v.fire k start (.other l) = some w) :
    v.forbids l = false ∧ ∃ cluster now, v.cluster.step l = some (cluster, now) ∧
      w = { v with cluster } := by
  rw [fire] at h
  split at h
  · cases h
  · rename_i hfree
    obtain ⟨⟨cluster, now⟩, hstep, h⟩ := Option.map_eq_some_iff.mp h
    exact ⟨by simpa using hfree, cluster, now, hstep, h.symm⟩

end Vigil

end Parking

end Custody
