import Custody.Proofs.Store.Marks
import Custody.Proofs.Store.Separation

/-!
# Who asks does not matter

The store looks at its requesters only to ask whether a waiter can still be reached. So two stores
that show the same of a key, up to the names of those who wait, decide a request on it in the same
way, and show the same afterwards.
-/

namespace Custody

variable {ρ σ : Type}

def Handover.map (f : ρ → σ) : Handover ρ → Handover σ
  | freed => freed
  | passed next => passed (f next)
  | vanished next => vanished (f next)

def Verdict.map (f : ρ → σ) : Verdict ρ → Verdict σ
  | granted v => granted v
  | parked displaced => parked (displaced.map f)
  | accepted v next => accepted v (next.map f)
  | refused => refused

def Request.map (f : ρ → σ) (r : Request ρ) : Request σ := ⟨r.op, r.key, f r.who⟩

variable {f : ρ → σ}

@[simp] theorem Verdict.reply?_map (v : Verdict ρ) : (v.map f).reply? = v.reply? := by
  cases v <;> rfl

theorem Verdict.fates_map (v : Verdict ρ) (who : ρ) :
    (v.map f).fates (f who) = (v.fates who).map fun p => (f p.1, p.2) := by
  cases v with
  | granted v => rfl
  | parked displaced => cases displaced <;> rfl
  | accepted v next => cases next <;> rfl
  | refused => rfl

namespace Store

variable {s : Store ρ} {s' : Store σ} {present : ρ → Bool} {present' : σ → Bool} {r : Request ρ}
  {r' : Request σ} {k : Key}

/-- Of key `k` the second store shows what the first does, with its waiter renamed. -/
structure Shows (f : ρ → σ) (k : Key) (s : Store ρ) (s' : Store σ) : Prop where
  value : s'.value k = s.value k
  owned : s'.isOwned k = s.isOwned k
  waiter : s'.waiter k = (s.waiter k).map f

theorem shows_empty : Shows f k ({} : Store ρ) ({} : Store σ) where
  value := by simp [Store.value]
  owned := by simp [Store.isOwned]
  waiter := by simp [Store.waiter]

/-- Another name for somebody who does not wait for the key makes no difference. -/
theorem Shows.congr {g : ρ → σ} (shows : Shows f k s s')
    (h : ∀ x, s.waiter k = some x → g x = f x) : Shows g k s s' where
  value := shows.value
  owned := shows.owned
  waiter := by
    rw [shows.waiter]
    cases hw : s.waiter k with
    | none => rfl
    | some x => rw [Option.map_some, Option.map_some, h x hw]

theorem Shows.handover (shows : Shows f k s s')
    (hpresent : ∀ x, s.waiter k = some x → present' (f x) = present x) :
    s'.handover present' k = (s.handover present k).map f := by
  rw [Store.handover, Store.handover, shows.waiter]
  cases hw : s.waiter k with
  | none => rfl
  | some x =>
    simp only [Option.map_some, hpresent x hw]
    split <;> rfl

theorem Shows.verdict (shows : Shows f r.key s s')
    (hpresent : ∀ x, s.waiter r.key = some x → present' (f x) = present x) :
    (s'.handle present' (r.map f)).2 = (s.handle present r).2.map f := by
  cases hop : r.op with
  | read =>
    have howned : s'.isOwned (r.map f).key = s.isOwned r.key := shows.owned
    have hvalue : s'.value (r.map f).key = s.value r.key := shows.value
    have hwaiter : s'.waiter (r.map f).key = (s.waiter r.key).map f := shows.waiter
    rw [verdict_read hop, verdict_read (r := r.map f) hop, howned, hvalue, hwaiter]
    split <;> rfl
  | write v =>
    have hvalue : s'.value (r.map f).key = s.value r.key := shows.value
    have hover : s'.handover present' (r.map f).key = (s.handover present r.key).map f :=
      shows.handover hpresent
    rw [verdict_write hop, verdict_write (r := r.map f) hop, hvalue, hover]
    split <;> rfl
  | unsupported name =>
    rw [verdict_unsupported hop, verdict_unsupported (r := r.map f) hop]
    rfl

theorem Shows.handle (shows : Shows f k s s') (showsKey : Shows f r.key s s')
    (hpresent : ∀ x, s.waiter r.key = some x → present' (f x) = present x) :
    Shows f k (s.handle present r).1 (s'.handle present' (r.map f)).1 := by
  have hv := showsKey.verdict hpresent
  refine ⟨?_, ?_, ?_⟩
  · rw [value_handle, value_handle, hv, shows.value]
    cases (s.handle present r).2 <;> rfl
  · rw [isOwned_handle, isOwned_handle, hv, shows.owned]
    cases (s.handle present r).2 with
    | accepted v next => cases next <;> rfl
    | _ => rfl
  · rw [waiter_handle, waiter_handle, hv, shows.waiter]
    cases (s.handle present r).2 with
    | granted v => rfl
    | parked displaced =>
      change (if r.key = k then _ else _) = Option.map f (if r.key = k then _ else _)
      split <;> rfl
    | accepted v next =>
      change (if r.key = k then _ else _) = Option.map f (if r.key = k then _ else _)
      split <;> rfl
    | refused => rfl

/-- A request for another key that only the second store sees. -/
theorem Shows.other (shows : Shows f k s s') (hkey : r'.key ≠ k) :
    Shows f k s (s'.handle present' r').1 where
  value := (value_of_other hkey).trans shows.value
  owned := (isOwned_of_other hkey).trans shows.owned
  waiter := (waiter_of_other hkey).trans shows.waiter

/-- A snapshot shows the keys, not who waits for them. -/
theorem snapshot_of_shows (shows : ∀ k, Shows f k s s') : s'.snapshot = s.snapshot := by
  have hvalues : s'.values = s.values :=
    Std.ExtTreeMap.ext_getElem? fun k => (shows k).value
  have howned : s'.owned = s.owned := Std.ExtTreeSet.ext_contains fun k => (shows k).owned
  have hwaiting : s'.waiters = s.waiters.map fun _ => f :=
    Std.ExtTreeMap.ext_getElem? fun k => by
      rw [Std.ExtTreeMap.getElem?_map]
      exact (shows k).waiter
  rw [Store.snapshot, Store.snapshot, hvalues, howned, hwaiting, Std.ExtTreeMap.keys_map]

end Store

end Custody
