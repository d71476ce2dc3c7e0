import Custody.Proofs.Store.Visits

/-!
# When a departure matters

The same requests may find different requesters still there. The store looks for somebody only when
a write that it accepts finds a waiter. As long as such a waiter is there in both runs or gone in
both, the two runs go through the same stores, decide each request alike, and tell the same to
everybody who is there to hear it.
-/

namespace Custody

namespace Store

variable {ρ : Type} {requests : List (Request ρ)} {present present' : Nat → ρ → Bool} {n : Nat}
  {r : Request ρ} {x : ρ}

/-- The requests as visits, with `present n` still there when the store decides on request `n`. -/
def attended (requests : List (Request ρ)) (present : Nat → ρ → Bool) : List (Visit ρ) :=
  requests.mapIdx fun n r => ⟨r, present n⟩

/-- The store before request `n`. -/
def before (requests : List (Request ρ)) (present : Nat → ρ → Bool) (n : Nat) : Store ρ :=
  reached ((attended requests present).take n)

def verdictAt (requests : List (Request ρ)) (present : Nat → ρ → Bool) (n : Nat) :
    Option (Verdict ρ) :=
  requests[n]?.map fun r => ((before requests present n).handle (present n) r).2

/-- What those who are still there hear of request `n`. -/
def heardAt (requests : List (Request ρ)) (present : Nat → ρ → Bool) (n : Nat) :
    List (ρ × Fate) :=
  match requests[n]?, verdictAt requests present n with
  | some r, some v => (v.fates r.who).filter fun f => present n f.1
  | _, _ => []

/-- Request `n` is a write that is accepted and finds `x` waiting for its key. -/
def Meets (requests : List (Request ρ)) (present : Nat → ρ → Bool) (n : Nat) (x : ρ) : Prop :=
  ∃ r v next, requests[n]? = some r ∧
    ((before requests present n).handle (present n) r).2 = .accepted v next ∧
    (before requests present n).waiter r.key = some x

/-- Whoever a write finds waiting is there in both runs, or gone in both. -/
def AgreeAtHandovers (requests : List (Request ρ)) (present present' : Nat → ρ → Bool) : Prop :=
  ∀ n x, Meets requests present n x → present n x = present' n x

/-- The two runs have come to the same store, and decide request `n` alike. -/
structure Abreast (requests : List (Request ρ)) (present present' : Nat → ρ → Bool)
    (n : Nat) : Prop where
  store : before requests present n = before requests present' n
  verdict : verdictAt requests present n = verdictAt requests present' n

theorem before_succ (hr : requests[n]? = some r) :
    before requests present (n + 1) = ((before requests present n).handle (present n) r).1 := by
  have hvisit : (attended requests present)[n]? = some ⟨r, present n⟩ := by
    rw [attended, List.getElem?_mapIdx, hr]
    rfl
  rw [before, List.take_add_one, hvisit]
  exact reached_snoc _ _

/-- After the last request nothing happens any more. -/
theorem before_succ_of_none (hr : requests[n]? = none) :
    before requests present (n + 1) = before requests present n := by
  have hvisit : (attended requests present)[n]? = none := by
    rw [attended, List.getElem?_mapIdx, hr]
    rfl
  rw [before, before, List.take_add_one, hvisit, Option.toList_none, List.append_nil]

/-! ## Two runs side by side -/

/-- From the same store the same is decided. -/
theorem handle_of_agree (agree : AgreeAtHandovers requests present present')
    (hstore : before requests present n = before requests present' n)
    (hr : requests[n]? = some r) :
    (before requests present n).handle (present n) r =
      (before requests present' n).handle (present' n) r := by
  rw [← hstore]
  apply handle_congr
  intro v next hv x hx
  exact agree n x ⟨r, v, next, hr, hv, hx⟩

theorem before_of_agree (agree : AgreeAtHandovers requests present present') (n : Nat) :
    before requests present n = before requests present' n := by
  induction n with
  | zero => rfl
  | succ n ih =>
    cases hr : requests[n]? with
    | none => rw [before_succ_of_none hr, before_succ_of_none hr, ih]
    | some r => rw [before_succ hr, before_succ hr, handle_of_agree agree ih hr]

theorem abreast_of_agree (agree : AgreeAtHandovers requests present present') (n : Nat) :
    Abreast requests present present' n where
  store := before_of_agree agree n
  verdict := by
    cases hr : requests[n]? with
    | none => rw [verdictAt, verdictAt, hr, Option.map_none, Option.map_none]
    | some r =>
      rw [verdictAt, verdictAt, hr, Option.map_some, Option.map_some,
        handle_of_agree agree (before_of_agree agree n) hr]

/-- Whoever is there in both runs, or gone in both, hears the same in both. -/
theorem Abreast.heard [DecidableEq ρ] (abreast : Abreast requests present present' n)
    (hx : present n x = present' n x) :
    (heardAt requests present n).filter (·.1 = x) =
      (heardAt requests present' n).filter (·.1 = x) := by
  rw [heardAt, heardAt, ← abreast.verdict]
  split
  · rw [List.filter_filter, List.filter_filter]
    apply List.filter_congr
    rintro ⟨y, f⟩ _
    by_cases hy : y = x
    · rw [hy, hx]
    · simp [hy]
  · rfl

/-- Two runs of the same requests part only where a write finds somebody waiting who is there in one
of them and gone in the other. If one requester is all the difference, it is that one. -/
theorem departures_matter_at_handovers [DecidableEq ρ] (requests : List (Request ρ))
    (present present' : Nat → ρ → Bool) :
    (AgreeAtHandovers requests present present' → ∀ n,
      before requests present n = before requests present' n ∧
      verdictAt requests present n = verdictAt requests present' n ∧
      ∀ x, present n x = true → present' n x = true →
        (heardAt requests present n).filter (·.1 = x) =
          (heardAt requests present' n).filter (·.1 = x)) ∧
    ∀ x, (∀ n y, y ≠ x → present n y = present' n y) →
      (∃ n, before requests present n ≠ before requests present' n ∨
        ∃ y, y ≠ x ∧ (heardAt requests present n).filter (·.1 = y) ≠
          (heardAt requests present' n).filter (·.1 = y)) →
      ∃ n, Meets requests present n x ∧ present n x ≠ present' n x := by
  constructor
  · intro agree n
    have abreast := abreast_of_agree agree n
    exact ⟨abreast.store, abreast.verdict,
      fun x hx hx' => abreast.heard (hx.trans hx'.symm)⟩
  · intro x hothers hdiffer
    by_contra hnone
    have agree : AgreeAtHandovers requests present present' := by
      intro n y hmeets
      by_cases hy : y = x
      · by_contra hpresent
        exact hnone ⟨n, hy ▸ hmeets, hy ▸ hpresent⟩
      · exact hothers n y hy
    obtain ⟨n, hstore | ⟨y, hy, hheard⟩⟩ := hdiffer
    · exact hstore (before_of_agree agree n)
    · exact hheard ((abreast_of_agree agree n).heard (hothers n y hy))

/-- Requesters 1 and 3 leave early in the second run: a reader that another takes the place of, and
the writer that releases the key. -/
def crowdedRequests : List (Request Nat) :=
  [⟨.read, "k", 0⟩, ⟨.read, "k", 1⟩, ⟨.read, "k", 2⟩, ⟨.write 7, "k", 3⟩]

theorem departures_matter_at_handovers_of_crowded :
    heardAt crowdedRequests (fun _ _ => true) 3 ≠
        heardAt crowdedRequests (fun _ x => x % 2 == 0) 3 ∧
      before crowdedRequests (fun _ _ => true) 4 =
        before crowdedRequests (fun _ x => x % 2 == 0) 4 ∧
      (heardAt crowdedRequests (fun _ x => x % 2 == 0) 3).filter (·.1 = 2) =
        [(2, .answered (.granted 7))] := by
  have agree : AgreeAtHandovers crowdedRequests (fun _ _ => true) fun _ x => x % 2 == 0 := by
    rintro n x ⟨r, v, next, hr, hv, hx⟩
    obtain ⟨hop, _⟩ := op_of_accepted hv
    rcases n with _ | _ | _ | _ | n
    · obtain rfl := Option.some.inj hr
      cases hop
    · obtain rfl := Option.some.inj hr
      cases hop
    · obtain rfl := Option.some.inj hr
      cases hop
    · obtain rfl := Option.some.inj hr
      obtain rfl : 2 = x := Option.some.inj hx
      rfl
    · simp [crowdedRequests] at hr
  obtain ⟨hsame, _⟩ := departures_matter_at_handovers crowdedRequests (fun _ _ => true)
    fun _ x => x % 2 == 0
  refine ⟨by decide, (hsame agree 4).1, ?_⟩
  rw [← (hsame agree 3).2.2 2 rfl rfl]
  rfl

end Store

end Custody
