import Mathlib
import Custody.Cluster.Run

/-!
# What a history says about a key

A key is granted when a read of it is answered at once, and when a write hands it over to a parked
reader; an accepted write ends whatever custody came before. So a history alone tells who has
custody of a key, and which value was written to it last. Custody given to a caller of the store
is named after the event that gave it, since such a caller can never give it back.
-/

namespace Custody

structure Grant where
  key : Key
  who : Requester
  value : Value
  deriving DecidableEq, Repr

inductive Custodian where
  | client (i : Nat)
  | outside (n : Nat)
  deriving DecidableEq, Repr

def Requester.custodian (n : Nat) : Requester → Custodian
  | client i => .client i
  | caller _ => .outside n

namespace Event

def grant? : Event → Option Grant
  | served r (.granted v) => some ⟨r.key, r.who, v⟩
  | served r (.accepted v (.passed next)) => some ⟨r.key, next, v⟩
  | _ => none

/-- The key and the value of an accepted write. -/
def write? : Event → Option (Key × Value)
  | served r (.accepted v _) => some (r.key, v)
  | _ => none

def Writes (e : Event) (k : Key) : Prop := ∃ v, e.write? = some (k, v)

def Grants (e : Event) (k : Key) : Prop := ∃ who v, e.grant? = some ⟨k, who, v⟩

/-- An event that neither grants `k` nor writes to it. -/
def Spares (e : Event) (k : Key) : Prop := ¬ e.Grants k ∧ ¬ e.Writes k

/-- Custody of a key after event `n`, which a write ends before it hands the key over. -/
def pass (k : Key) (n : Nat) (x : Option Custodian) (e : Event) : Option Custodian :=
  match e.grant? with
  | some g => if g.key = k then some (g.who.custodian n) else x
  | none => match e.write? with
    | some w => if w.1 = k then none else x
    | none => x

def publish (k : Key) (v : Value) (e : Event) : Value :=
  match e.write? with
  | some w => if w.1 = k then w.2 else v
  | none => v

end Event

def custody (es : List Event) (k : Key) : Option Custodian :=
  es.zipIdx.foldl (fun x e => e.1.pass k e.2 x) none

/-- The last value written to a key, 0 if there is none. -/
def lastWritten (es : List Event) (k : Key) : Value := es.foldl (fun v e => e.publish k v) 0

variable {es now : List Event} {e : Event} {k : Key}

@[simp] theorem custody_nil (k : Key) : custody [] k = none := rfl

@[simp] theorem lastWritten_nil (k : Key) : lastWritten [] k = 0 := rfl

theorem custody_snoc (es : List Event) (e : Event) (k : Key) :
    custody (es ++ [e]) k = e.pass k es.length (custody es k) := by
  simp [custody, List.zipIdx_append]

theorem lastWritten_snoc (es : List Event) (e : Event) (k : Key) :
    lastWritten (es ++ [e]) k = e.publish k (lastWritten es k) := by
  simp [lastWritten]

/-- A write grants no key but its own. -/
theorem grant_key_of_write {g : Grant} {w : Key × Value} (hg : e.grant? = some g)
    (hw : e.write? = some w) : g.key = w.1 := by
  unfold Event.grant? at hg
  split at hg
  · cases hw
  · obtain rfl := Option.some.inj hg
    obtain rfl := Option.some.inj hw
    rfl
  · cases hg

theorem pass_of_spares {n : Nat} {x : Option Custodian} (h : e.Spares k) : e.pass k n x = x := by
  obtain ⟨hg, hw⟩ := h
  unfold Event.pass
  split
  · rename_i g hgrant
    rw [if_neg]
    rintro rfl
    exact hg ⟨g.who, g.value, hgrant⟩
  · split
    · rename_i w hwrite
      rw [if_neg]
      rintro rfl
      exact hw ⟨w.2, hwrite⟩
    · rfl

theorem publish_of_not_writes {v : Value} (hw : ¬ e.Writes k) : e.publish k v = v := by
  unfold Event.publish
  split
  · rename_i w hwrite
    rw [if_neg]
    rintro rfl
    exact hw ⟨w.2, hwrite⟩
  · rfl

theorem custody_append_of_spares (h : ∀ e ∈ now, e.Spares k) :
    custody (es ++ now) k = custody es k := by
  induction now using List.reverseRecOn with
  | nil => simp
  | append_singleton rest e ih =>
    rw [← List.append_assoc, custody_snoc, pass_of_spares (h e (by simp))]
    exact ih fun e he => h e (List.mem_append_left _ he)

theorem lastWritten_append_of_not_writes (h : ∀ e ∈ now, ¬ e.Writes k) :
    lastWritten (es ++ now) k = lastWritten es k := by
  induction now using List.reverseRecOn with
  | nil => simp
  | append_singleton rest e ih =>
    rw [← List.append_assoc, lastWritten_snoc, publish_of_not_writes (h e (by simp))]
    exact ih fun e he => h e (List.mem_append_left _ he)

/-- Whoever has custody after an event had it before, or was granted the key by the event. -/
theorem custody_snoc_cases {x : Custodian} (h : custody (es ++ [e]) k = some x) :
    (e.Spares k ∧ custody es k = some x) ∨
      ∃ who v, e.grant? = some ⟨k, who, v⟩ ∧ x = who.custodian es.length := by
  by_cases hg : e.Grants k
  · obtain ⟨who, v, hgrant⟩ := hg
    rw [custody_snoc, Event.pass, hgrant] at h
    simp only [if_true, Option.some.injEq] at h
    exact Or.inr ⟨who, v, hgrant, h.symm⟩
  · by_cases hw : e.Writes k
    · obtain ⟨v, hwrite⟩ := hw
      rw [custody_snoc, Event.pass] at h
      split at h
      · rename_i g hgrant
        have hkey : g.key = k := grant_key_of_write hgrant hwrite
        exact absurd ⟨g.who, g.value, by rw [hgrant, ← hkey]⟩ hg
      · rw [hwrite] at h
        simp at h
    · rw [custody_snoc, pass_of_spares ⟨hg, hw⟩] at h
      exact Or.inl ⟨⟨hg, hw⟩, h⟩

/-- Whoever has custody was granted the key, and since then it was neither granted nor written. -/
theorem custody_eq_some {x : Custodian} (h : custody es k = some x) :
    ∃ early grant late who v, es = early ++ grant :: late ∧ grant.grant? = some ⟨k, who, v⟩ ∧
      x = who.custodian early.length ∧ ∀ e ∈ late, e.Spares k := by
  induction es using List.reverseRecOn with
  | nil => simp at h
  | append_singleton es e ih =>
    rcases custody_snoc_cases h with ⟨hspares, hbefore⟩ | ⟨who, v, hgrant, hx⟩
    · obtain ⟨early, grant, late, who, v, rfl, hgrant, hx, hlate⟩ := ih hbefore
      refine ⟨early, grant, late ++ [e], who, v, by simp, hgrant, hx, ?_⟩
      intro e' he'
      rcases List.mem_append.mp he' with he' | he'
      · exact hlate e' he'
      · rw [List.mem_singleton.mp he']
        exact hspares
    · exact ⟨es, e, [], who, v, rfl, hgrant, hx, by simp⟩

theorem grant_served {r : Request Requester} {v : Verdict Requester} {g : Grant}
    (h : (Event.served r v).grant? = some g) : g.key = r.key ∧
      ((v = .granted g.value ∧ r.who = g.who) ∨ v = .accepted g.value (.passed g.who)) := by
  cases v with
  | granted u =>
    obtain rfl := Option.some.inj h
    exact ⟨rfl, Or.inl ⟨rfl, rfl⟩⟩
  | parked d => cases h
  | accepted u n =>
    cases n with
    | freed => cases h
    | passed next =>
      obtain rfl := Option.some.inj h
      exact ⟨rfl, Or.inr rfl⟩
    | vanished next => cases h
  | refused => cases h

theorem write_served {r : Request Requester} {v : Verdict Requester} {w : Key × Value}
    (h : (Event.served r v).write? = some w) : w.1 = r.key ∧ ∃ n, v = .accepted w.2 n := by
  cases v with
  | granted u => cases h
  | parked d => cases h
  | accepted u n =>
    obtain rfl := Option.some.inj h
    exact ⟨rfl, n, rfl⟩
  | refused => cases h

/-- Of the requests that the store decides on, only the granted reads and the accepted writes of a
key touch it. -/
theorem served_of_not_spares {r : Request Requester} {v : Verdict Requester}
    (h : ¬ (Event.served r v).Spares k) :
    r.key = k ∧ ((∃ u, v = .granted u) ∨ ∃ u n, v = .accepted u n) := by
  by_cases hg : (Event.served r v).Grants k
  · obtain ⟨who, u, hgrant⟩ := hg
    obtain ⟨hkey, ⟨hv, _⟩ | hv⟩ := grant_served hgrant
    · exact ⟨hkey.symm, Or.inl ⟨u, hv⟩⟩
    · exact ⟨hkey.symm, Or.inr ⟨u, _, hv⟩⟩
  · by_cases hw : (Event.served r v).Writes k
    · obtain ⟨u, hwrite⟩ := hw
      obtain ⟨hkey, n, hv⟩ := write_served hwrite
      exact ⟨hkey.symm, Or.inr ⟨u, n, hv⟩⟩
    · exact absurd ⟨hg, hw⟩ h

theorem entry_append {α : Type} {l l' : List α} {n : Nat} {a : α} (h : (l ++ l')[n]? = some a) :
    l[n]? = some a ∨ (l.length ≤ n ∧ l'[n - l.length]? = some a) := by
  rw [List.getElem?_append] at h
  split at h
  · exact Or.inl h
  · rename_i hn
    exact Or.inr ⟨Nat.le_of_not_lt hn, h⟩

theorem entry_snoc {α : Type} {l : List α} {n : Nat} {a last : α}
    (h : (l ++ [last])[n]? = some a) : l[n]? = some a ∨ (n = l.length ∧ last = a) := by
  rcases entry_append h with h | ⟨hn, h⟩
  · exact Or.inl h
  · obtain ⟨hzero, h⟩ := List.getElem?_eq_some_iff.mp h
    rw [List.length_singleton] at hzero
    exact Or.inr ⟨by omega, by simpa using h⟩

/-- An event of a longer history is its last one, or one of those before. -/
theorem split_snoc {last : Event} {early late : List Event}
    (h : es ++ [last] = early ++ e :: late) : (es = early ∧ last = e ∧ late = []) ∨
      ∃ rest, es = early ++ e :: rest ∧ late = rest ++ [last] := by
  rcases List.eq_nil_or_concat late with rfl | ⟨rest, e', rfl⟩
  · obtain ⟨hes, he⟩ := List.append_inj' h rfl
    exact Or.inl ⟨hes, List.singleton_inj.mp he, rfl⟩
  · rw [List.concat_eq_append, ← List.cons_append, ← List.append_assoc] at h
    obtain ⟨hes, he⟩ := List.append_inj' h rfl
    exact Or.inr ⟨rest, hes, by rw [List.concat_eq_append, he]⟩

/-! ## Pledges and fresh replies -/

/-- Client `i` sent its put of `v` while it had custody, which nothing has touched since. -/
def Pledged (es : List Event) (k : Key) (i : Nat) (v : Value) : Prop :=
  ∃ early c late, es = early ++ .asked i ⟨c, .put v, k⟩ :: late ∧
    custody early k = some (.client i) ∧ ∀ e ∈ late, e.Spares k

/-- Every get that came off was answered with the value written last. -/
def Fresh (es : List Event) : Prop :=
  ∀ early i job r late, es = early ++ .answered i job r :: late → job.action = .get →
    r.ok = true → r.value = lastWritten early job.key

theorem spares_singleton (h : ∀ k, e.Spares k) : ∀ e' ∈ [e], ∀ k, e'.Spares k := by
  intro e' he
  rw [List.mem_singleton.mp he]
  exact h

theorem spares_asked (i : Nat) (job : Job) (k : Key) : (Event.asked i job).Spares k := by
  constructor
  · rintro ⟨who, v, h⟩
    cases h
  · rintro ⟨v, h⟩
    cases h

theorem spares_answered (i : Nat) (job : Job) (r : ClientReply) (k : Key) :
    (Event.answered i job r).Spares k := by
  constructor
  · rintro ⟨who, v, h⟩
    cases h
  · rintro ⟨v, h⟩
    cases h

theorem Pledged.custody {i : Nat} {v : Value} (h : Pledged es k i v) :
    custody es k = some (.client i) := by
  obtain ⟨early, c, late, rfl, hcustody, hlate⟩ := h
  rw [custody_append_of_spares ?_]
  · exact hcustody
  · intro e he
    rcases List.mem_cons.mp he with rfl | he
    · exact spares_asked i _ k
    · exact hlate e he

theorem Pledged.append {i : Nat} {v : Value} (h : Pledged es k i v)
    (hnow : ∀ e ∈ now, e.Spares k) : Pledged (es ++ now) k i v := by
  obtain ⟨early, c, late, rfl, hcustody, hlate⟩ := h
  refine ⟨early, c, late ++ now, by simp, hcustody, ?_⟩
  intro e he
  rcases List.mem_append.mp he with he | he
  · exact hlate e he
  · exact hnow e he

theorem fresh_nil : Fresh [] := by
  rintro early i job r late h
  simp at h

theorem Fresh.snoc (fresh : Fresh es) (h : ∀ i job r, e = .answered i job r →
    job.action = .get → r.ok = true → r.value = lastWritten es job.key) : Fresh (es ++ [e]) := by
  intro early i job r late hes
  rcases split_snoc hes with ⟨rfl, he, _⟩ | ⟨rest, rfl, _⟩
  · exact h i job r he
  · exact fresh early i job r rest rfl

theorem Fresh.append (fresh : Fresh es) (h : ∀ e ∈ now, ∀ i job r, e ≠ .answered i job r) :
    Fresh (es ++ now) := by
  induction now using List.reverseRecOn with
  | nil => simpa using fresh
  | append_singleton rest e ih =>
    rw [← List.append_assoc]
    refine (ih fun e he => h e (List.mem_append_left _ he)).snoc ?_
    intro i job r he
    exact absurd he (h e (by simp) i job r)

end Custody
