import Custody.Proofs.Store.Visits

/-!
# What the record says about a key

Written down in order, the grants of a key and the accepted writes to it tell whether the key is
owned, and the writes alone tell its value. A hand-over counts as a grant that comes after the
write that caused it; it is none when the waiter is gone. A key has a value from the first read on.
-/

namespace Custody

variable {ρ : Type}

inductive Mark where
  | grant
  | write
  deriving DecidableEq, Repr

namespace Verdict

/-- What a verdict leaves in the history of its key. -/
def marks : Verdict ρ → List Mark
  | granted _ => [.grant]
  | accepted _ (.passed _) => [.write, .grant]
  | accepted _ _ => [.write]
  | _ => []

def written? : Verdict ρ → Option Value
  | accepted v _ => some v
  | _ => none

end Verdict

/-- What a visit leaves in the history of its key, by the state of the key before it. A read of a
free key is a grant. A write of a key that has a value is accepted, and a grant follows if somebody
waits for the key who is still there. -/
def Visit.marks (s : Store ρ) (v : Visit ρ) : List Mark :=
  match v.request.op with
  | .read => if s.isOwned v.request.key then [] else [.grant]
  | .write _ =>
    if (s.value v.request.key).isSome then
      .write :: if (s.waiter v.request.key).any v.present then [.grant] else []
    else []
  | .unsupported _ => []

namespace Store

def marks (visits : List (Visit ρ)) (k : Key) : List Mark :=
  (record {} visits).flatMap fun e => if e.1.key = k then e.2.marks else []

/-- The values of the accepted writes to a key, in order. -/
def writes (visits : List (Visit ρ)) (k : Key) : List Value :=
  (record {} visits).filterMap fun e => if e.1.key = k then e.2.written? else none

/-- Somebody has asked to read `k`, whether the read was granted or parked. -/
def WasRead (visits : List (Visit ρ)) (k : Key) : Prop :=
  ∃ v ∈ visits, v.request.op = .read ∧ v.request.key = k

/-- Between any two grants there is a write. -/
def Alternating (log : List Mark) : Prop :=
  ∀ i j : Nat, i < j → log[i]? = some .grant → log[j]? = some .grant →
    ∃ n, i < n ∧ n < j ∧ log[n]? = some .write

variable {present : ρ → Bool} {s : Store ρ} {r : Request ρ} {k : Key} {log : List Mark}
  {visits : List (Visit ρ)} {v : Visit ρ}

/-- The verdict leaves what the visit should. -/
theorem marks_visit (s : Store ρ) (v : Visit ρ) :
    (s.handle v.present v.request).2.marks = v.marks s := by
  rw [Visit.marks]
  cases hop : v.request.op with
  | read =>
    rw [verdict_read hop]
    split
    · rfl
    · rfl
  | write u =>
    rw [verdict_write hop]
    dsimp only
    split
    · rw [handover]
      cases s.waiter v.request.key with
      | none => rfl
      | some x => cases hx : v.present x <;> simp [hx, Verdict.marks]
    · rfl
  | unsupported name =>
    rw [verdict_unsupported hop]
    rfl

theorem marks_snoc (visits : List (Visit ρ)) (v : Visit ρ) (k : Key) :
    marks (visits ++ [v]) k = marks visits k ++
      if v.request.key = k then ((reached visits).handle v.present v.request).2.marks else [] := by
  simp [marks, record_snoc]

theorem writes_snoc (visits : List (Visit ρ)) (v : Visit ρ) (k : Key) :
    writes (visits ++ [v]) k = writes visits k ++
      if v.request.key = k then
        ((reached visits).handle v.present v.request).2.written?.toList else [] := by
  rw [writes, record_snoc, List.filterMap_append, ← writes]
  by_cases hkey : v.request.key = k
  · cases hv : ((reached visits).handle v.present v.request).2.written? <;> simp [hkey, hv]
  · simp [hkey]

theorem wasRead_snoc : WasRead (visits ++ [v]) k ↔
    WasRead visits k ∨ (v.request.op = .read ∧ v.request.key = k) := by
  constructor
  · rintro ⟨w, hw, hread⟩
    rcases List.mem_append.mp hw with hw | hw
    · exact Or.inl ⟨w, hw, hread⟩
    · rw [List.mem_singleton.mp hw] at hread
      exact Or.inr hread
  · rintro (⟨w, hw, hread⟩ | hread)
    · exact ⟨w, List.mem_append_left _ hw, hread⟩
    · exact ⟨v, List.mem_append_right _ (List.mem_singleton.mpr rfl), hread⟩

/-! ## Grants and writes -/

theorem alternating_nil : Alternating [] := by
  intro i j _ hi
  simp at hi

/-- A mark may follow if it is a write, or if the last mark was none. -/
theorem Alternating.snoc {m : Mark} (halt : Alternating log)
    (hm : m = .write ∨ log.getLast? ≠ some .grant) : Alternating (log ++ [m]) := by
  intro i j hij hi hj
  have hlen := (List.getElem?_eq_some_iff.mp hj).1
  rw [List.length_append, List.length_singleton] at hlen
  rw [List.getElem?_append_left (by omega)] at hi
  by_cases hlast : j < log.length
  · rw [List.getElem?_append_left hlast] at hj
    obtain ⟨n, hin, hnj, hn⟩ := halt i j hij hi hj
    refine ⟨n, hin, hnj, ?_⟩
    rw [List.getElem?_append_left (by omega)]
    exact hn
  · -- the second grant is the new mark, so the mark before it is the write
    obtain rfl : j = log.length := by omega
    have hgrant : m = .grant := by simpa using hj
    have hbefore : log.getLast? ≠ some .grant := by
      rcases hm with hwrite | hbefore
      · rw [hgrant] at hwrite
        cases hwrite
      · exact hbefore
    rw [List.getLast?_eq_getElem?] at hbefore
    have hend : log.length - 1 < log.length := by omega
    have hne : i ≠ log.length - 1 := by
      rintro rfl
      exact hbefore hi
    refine ⟨log.length - 1, by omega, by omega, ?_⟩
    rw [List.getElem?_append_left hend, List.getElem?_eq_getElem hend]
    cases hmark : log[log.length - 1] with
    | grant => exact absurd (by rw [List.getElem?_eq_getElem hend, hmark]) hbefore
    | write => rfl

/-- One visit keeps the grants apart, and its last mark tells whether its key is owned. -/
theorem marks_handle (halt : Alternating log)
    (howner : s.isOwned r.key = true ↔ log.getLast? = some .grant) :
    Alternating (log ++ (s.handle present r).2.marks) ∧
      ((s.handle present r).1.isOwned r.key = true ↔
        (log ++ (s.handle present r).2.marks).getLast? = some .grant) := by
  rw [isOwned_handle]
  cases hv : (s.handle present r).2 with
  | granted v =>
    have hfree := (op_of_granted hv).2.1
    have hlast : log.getLast? ≠ some .grant := by
      intro hlast
      rw [howner.mpr hlast] at hfree
      cases hfree
    exact ⟨halt.snoc (Or.inr hlast), by simp [Verdict.marks]⟩
  | parked d => simpa [Verdict.marks] using ⟨halt, howner⟩
  | accepted v n =>
    have hwrite : Alternating (log ++ [.write]) := halt.snoc (Or.inl rfl)
    cases n with
    | freed => exact ⟨hwrite, by simp [Verdict.marks]⟩
    | passed next =>
      have hgrant := hwrite.snoc (m := .grant) (Or.inr (by simp))
      rw [List.append_assoc] at hgrant
      exact ⟨hgrant, by simp [Verdict.marks]⟩
    | vanished next => exact ⟨hwrite, by simp [Verdict.marks]⟩
  | refused => simpa [Verdict.marks] using ⟨halt, howner⟩

theorem isOwned_of_other (hkey : r.key ≠ k) :
    (s.handle present r).1.isOwned k = s.isOwned k := by
  rw [isOwned_handle]
  cases (s.handle present r).2 with
  | granted v => simp [hkey]
  | parked d => rfl
  | accepted v n => cases n <;> simp [hkey]
  | refused => rfl

theorem marks_reached (visits : List (Visit ρ)) (k : Key) :
    Alternating (marks visits k) ∧
      ((reached visits).isOwned k = true ↔ (marks visits k).getLast? = some .grant) := by
  induction visits using List.reverseRecOn with
  | nil => exact ⟨alternating_nil, by simp [isOwned, marks]⟩
  | append_singleton visits v ih =>
    rw [reached_snoc, marks_snoc]
    by_cases hkey : v.request.key = k
    · subst hkey
      rw [if_pos rfl]
      exact marks_handle ih.1 ih.2
    · rw [if_neg hkey, List.append_nil, isOwned_of_other hkey]
      exact ih

/-- Whoever the requesters are, and whenever they go away. The history of a key grows by what each
visit to it leaves there. -/
theorem no_two_grants_without_a_write (visits : List (Visit ρ)) (k : Key) :
    Alternating (marks visits k) ∧
    (∀ early, early <+: visits →
      ((reached early).isOwned k = true ↔ (marks early k).getLast? = some .grant)) ∧
    ∀ early v, early ++ [v] <+: visits → marks (early ++ [v]) k =
      marks early k ++ if v.request.key = k then v.marks (reached early) else [] := by
  refine ⟨(marks_reached visits k).1, fun early _ => (marks_reached early k).2, fun early v _ => ?_⟩
  rw [marks_snoc, marks_visit]

/-! ## Values -/

theorem value_isSome_handle : ((s.handle present r).1.value k).isSome ↔
    (s.value k).isSome ∨ (r.key = k ∧ ∃ v, (s.handle present r).2 = .granted v) := by
  rw [value_handle]
  cases hv : (s.handle present r).2 with
  | granted v => by_cases hkey : r.key = k <;> simp [hkey]
  | parked d => simp
  | accepted v n =>
    have hvalue := (op_of_accepted hv).2.1
    by_cases hkey : r.key = k
    · subst hkey
      simp [hvalue]
    · simp [hkey]
  | refused => simp

/-- A key has a value as soon as it has been read; a parked read finds it there. -/
theorem value_isSome_iff (visits : List (Visit ρ)) (k : Key) :
    ((reached visits).value k).isSome ↔ WasRead visits k := by
  induction visits using List.reverseRecOn with
  | nil => simp [value, WasRead]
  | append_singleton visits v ih =>
    rw [reached_snoc, value_isSome_handle, wasRead_snoc, ih]
    constructor
    · rintro (hbefore | ⟨hkey, u, hv⟩)
      · exact Or.inl hbefore
      · exact Or.inr ⟨(op_of_granted hv).1, hkey⟩
    · rintro (hbefore | ⟨hread, rfl⟩)
      · exact Or.inl hbefore
      · by_cases howned : (reached visits).isOwned v.request.key = true
        · exact Or.inl (ih.mp ((sound_reached visits).valued _ howned))
        · exact Or.inr ⟨rfl, _, by rw [verdict_read hread, if_neg howned]⟩

theorem value_eq_last_write (visits : List (Visit ρ)) (k : Key) :
    ((reached visits).value k).getD 0 = (writes visits k).getLast?.getD 0 := by
  induction visits using List.reverseRecOn with
  | nil => rfl
  | append_singleton visits v ih =>
    rw [reached_snoc, value_handle, writes_snoc]
    by_cases hkey : v.request.key = k
    · subst hkey
      cases hv : ((reached visits).handle v.present v.request).2 with
      | granted u =>
        rw [(op_of_granted hv).2.2, ih]
        simp [Verdict.written?]
      | parked d => simpa [Verdict.written?] using ih
      | accepted u n => simp [Verdict.written?]
      | refused => simpa [Verdict.written?] using ih
    · rw [if_neg hkey, List.append_nil, ← ih]
      cases ((reached visits).handle v.present v.request).2 <;> simp [hkey]

/-- Whatever a verdict tells anybody of the key, it tells with the value that the key has now. -/
theorem value_of_answer {x : ρ} {reply : StoreReply}
    (hfate : (x, .answered reply) ∈ (s.handle present r).2.fates r.who) (hok : reply.ok = true) :
    (s.handle present r).1.value r.key = some reply.value := by
  rw [value_handle]
  cases hv : (s.handle present r).2 with
  | granted v =>
    obtain ⟨_, rfl⟩ : x = r.who ∧ reply = .granted v := by simpa [hv, Verdict.fates] using hfate
    simp [StoreReply.granted]
  | parked d =>
    rw [hv] at hfate
    cases d <;> simp [Verdict.fates] at hfate
  | accepted v n =>
    obtain rfl : reply = .granted v := by
      rw [hv] at hfate
      cases n <;> simp [Verdict.fates] at hfate <;> tauto
    simp [StoreReply.granted]
  | refused =>
    obtain ⟨_, rfl⟩ : x = r.who ∧ reply = .rejected := by simpa [hv, Verdict.fates] using hfate
    cases hok

theorem accepted_iff_isSome {v : Value} (hop : r.op = .write v) :
    (∃ n, (s.handle present r).2 = .accepted v n) ↔ (s.value r.key).isSome := by
  rw [verdict_write hop]
  by_cases hvalue : (s.value r.key).isSome
  · simp [hvalue]
  · simp [hvalue]

theorem values_follow_history (visits : List (Visit ρ)) (k : Key) :
    (((reached visits).value k).isSome ↔ WasRead visits k) ∧
    (∀ w : Visit ρ, ∀ v, w.request.op = .write v → w.request.key = k →
      ((∃ n, ((reached visits).handle w.present w.request).2 = .accepted v n) ↔
          WasRead visits k) ∧
        (¬ WasRead visits k →
          ((reached visits).handle w.present w.request).2.fates w.request.who =
              [(w.request.who, .answered ⟨0, false⟩)] ∧
            reached (visits ++ [w]) = reached visits)) ∧
    (∀ v, (reached visits).value k = some v → v = (writes visits k).getLast?.getD 0) ∧
    ∀ w : Visit ρ, w.request.key = k → ∀ x reply,
      (x, .answered reply) ∈ ((reached visits).handle w.present w.request).2.fates w.request.who →
        reply.ok = true → (reached (visits ++ [w])).value k = some reply.value := by
  refine ⟨value_isSome_iff visits k, ?_, ?_, ?_⟩
  · rintro w v hop rfl
    refine ⟨(accepted_iff_isSome hop).trans (value_isSome_iff visits _), ?_⟩
    intro hunread
    have hnone : ¬ ((reached visits).value w.request.key).isSome :=
      fun hvalue => hunread ((value_isSome_iff visits _).mp hvalue)
    have hrefused : ((reached visits).handle w.present w.request).2 = .refused := by
      rw [verdict_write hop, if_neg hnone]
    refine ⟨?_, ?_⟩
    · rw [hrefused]
      rfl
    · rw [reached_snoc]
      exact handle_of_refused hrefused
  · intro v hv
    rw [← value_eq_last_write, hv]
    rfl
  · rintro w rfl x reply hfate hok
    rw [reached_snoc]
    exact value_of_answer hfate hok

end Store

end Custody
