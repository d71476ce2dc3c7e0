import Custody.Proofs.Contention.Moves
import Custody.Proofs.Contention.Tally

/-!
# Where a worker stands

A worker rests or has one call open, and the job of that call is in its client's inbox, in its
client's hand, answered, or noted by the caller. What the client has cached goes with it: nothing
until a get is answered, and then the key until a put is.
-/

namespace Custody

/-- How far a call has come. -/
inductive Leg where
  | queued
  | asked (slot : Slot StoreReply)
  | told (r : ClientReply)
  | noted (r : ClientReply)
  deriving DecidableEq

namespace Leg

def status : Leg → Status
  | queued => .pending false .empty
  | asked _ => .pending false .empty
  | told r => .pending false (.full (.client r))
  | noted r => .ended (.answered (.client r))

/-- The inbox of the client that the call is for. -/
def inbox (job : Job) : Leg → List Job
  | queued => [job]
  | _ => []

/-- What the client has asked the store for. -/
def work (job : Job) : Leg → Option Work
  | asked slot => some ⟨job, slot⟩
  | _ => none

/-- What the client has cached of `k` meanwhile, when the store's value is `now` and the caller
adds `delta` to what it gets. -/
def Goes (leg : Leg) (a : Action) (k : Key) (cache : Cache) (now delta : Value) : Prop :=
  match a, leg with
  | .get, queued => cache[k]? = none
  | .get, asked slot => cache[k]? = none ∧ (slot = .empty ∨ ∃ v, slot = .full ⟨v, true⟩)
  | .get, told r => ∃ v, r = .fetched v ∧ cache[k]? = some v
  | .get, noted r => ∃ v, r = .fetched v ∧ cache[k]? = some v
  | .put u, queued => ∃ v, cache[k]? = some v ∧ u = v + delta
  | .put u, asked slot =>
    cache[k]? = some u ∧ ((slot = .empty ∧ u = now + delta) ∨ ∃ v, slot = .full ⟨v, true⟩)
  | .put _, told r => r = .released ∧ cache[k]? = none
  | .put _, noted r => r = .released ∧ cache[k]? = none
  | .unsupported _, _ => False

/-- The store has accepted the put that the call is about. -/
def accepted (a : Action) : Leg → Bool
  | queued => false
  | asked .empty => false
  | _ => match a with
    | .put _ => true
    | _ => false

end Leg

/-- The worker waits for call `c`. -/
def Worker.Awaits (w : Worker) (c : Nat) : Prop := w.stage = .getting c ∨ w.stage = .putting c

theorem Worker.Awaits.unique {w : Worker} {c c' : Nat} (h : w.Awaits c) (h' : w.Awaits c') :
    c = c' := by
  rcases h with h | h
  · rcases h' with h' | h'
    · exact Worker.Stage.getting.inj (h.symm.trans h')
    · exact absurd (h.symm.trans h') (by simp)
  · rcases h' with h' | h'
    · exact absurd (h.symm.trans h') (by simp)
    · exact Worker.Stage.putting.inj (h.symm.trans h')

theorem Worker.not_awaits {w : Worker} {c : Nat} (h : w.stage = .resting) : ¬ w.Awaits c := by
  rintro (hget | hput)
  · exact absurd (h.symm.trans hget) (by simp)
  · exact absurd (h.symm.trans hput) (by simp)

/-- The worker waits for call `c`, which is of `a`. -/
def Worker.On (w : Worker) (c : Nat) : Action → Prop
  | .get => w.stage = .getting c
  | .put _ => w.stage = .putting c
  | .unsupported _ => False

theorem Worker.On.awaits {w : Worker} {c : Nat} {a : Action} (h : w.On c a) : w.Awaits c := by
  cases a with
  | get => exact Or.inl h
  | put u => exact Or.inr h
  | unsupported name => exact absurd h id

/-- Worker `j` waits for its call `c` of `a`, which has come as far as `leg`. -/
structure Errand (calls : List Call) (k : Key) (now : Value) (j : Nat) (w : Worker) (m : Member)
    (c : Nat) (a : Action) (leg : Leg) : Prop where
  stage : w.On c a
  call : calls[c]? = some ⟨.client j a .attached, k, leg.status⟩
  entries : m.inbox.entries = leg.inbox ⟨c, a, k⟩
  work : m.work = leg.work ⟨c, a, k⟩
  goes : leg.Goes a k m.cache now w.delta

/-- Where worker `j` stands, with how many of its puts accepted. -/
inductive Standing (calls : List Call) (k : Key) (now : Value) (j : Nat) (w : Worker)
    (m : Member) : Nat → Prop where
  | resting (hstage : w.stage = .resting) (hentries : m.inbox.entries = []) (hwork : m.work = none)
      (hmiss : m.cache[k]? = none) : Standing calls k now j w m w.puts
  | working (c : Nat) (a : Action) (leg : Leg) (errand : Errand calls k now j w m c a leg) :
      Standing calls k now j w m (w.puts + (leg.accepted a).toNat)

namespace Standing

variable {calls calls' : List Call} {k : Key} {now now' : Value} {j : Nat} {w : Worker}
  {m : Member} {n : Nat} {job : Job}

/-- Nothing matters but the calls on the worker's own client. -/
theorem frame (standing : Standing calls k now j w m n)
    (hcalls : ∀ (c : Nat) a status, calls[c]? = some ⟨.client j a .attached, k, status⟩ →
      calls'[c]? = some ⟨.client j a .attached, k, status⟩) : Standing calls' k now j w m n := by
  cases standing with
  | resting hstage hentries hwork hmiss => exact .resting hstage hentries hwork hmiss
  | working c a leg errand =>
    exact .working c a leg { errand with call := hcalls c a _ errand.call }

/-- A client with a job in its inbox is about to take it up. -/
theorem of_entries {rest : List Job} (standing : Standing calls k now j w m n)
    (hentries : m.inbox.entries = job :: rest) :
    rest = [] ∧ job.key = k ∧ Errand calls k now j w m job.call job.action .queued ∧
      n = w.puts := by
  cases standing with
  | resting _ hempty =>
    rw [hentries] at hempty
    cases hempty
  | working c a leg errand =>
    have hinbox := hentries.symm.trans errand.entries
    cases leg with
    | queued =>
      cases hinbox
      exact ⟨rfl, rfl, errand, rfl⟩
    | asked slot => cases hinbox
    | told r => cases hinbox
    | noted r => cases hinbox

/-- A client with a job in hand has asked the store for it. -/
theorem of_work {slot : Slot StoreReply} (standing : Standing calls k now j w m n)
    (hwork : m.work = some ⟨job, slot⟩) :
    job.key = k ∧ Errand calls k now j w m job.call job.action (.asked slot) ∧
      n = w.puts + ((Leg.asked slot).accepted job.action).toNat := by
  cases standing with
  | resting _ _ hidle =>
    rw [hwork] at hidle
    cases hidle
  | working c a leg errand =>
    have hasked := hwork.symm.trans errand.work
    cases leg with
    | queued => cases hasked
    | asked slot =>
      cases hasked
      exact ⟨rfl, errand, rfl⟩
    | told r => cases hasked
    | noted r => cases hasked

theorem of_resting (standing : Standing calls k now j w m n) (hstage : w.stage = .resting) :
    m.inbox.entries = [] ∧ m.work = none ∧ m.cache[k]? = none ∧ n = w.puts := by
  cases standing with
  | resting _ hentries hwork hmiss => exact ⟨hentries, hwork, hmiss, rfl⟩
  | working c a leg errand => exact absurd errand.stage.awaits (Worker.not_awaits hstage)

theorem of_awaits {c : Nat} (standing : Standing calls k now j w m n) (hwaits : w.Awaits c) :
    ∃ a leg, Errand calls k now j w m c a leg ∧ n = w.puts + (leg.accepted a).toNat := by
  cases standing with
  | resting hstage => exact absurd hwaits (Worker.not_awaits hstage)
  | working c' a leg errand =>
    obtain rfl := errand.stage.awaits.unique hwaits
    exact ⟨a, leg, errand, rfl⟩

end Standing

/-! ## How a call goes on -/

theorem Leg.Goes.later {leg : Leg} {a : Action} {k : Key} {cache : Cache} {now now' delta : Value}
    (goes : leg.Goes a k cache now delta)
    (hnow : ∀ u, a = .put u → leg = .asked .empty → now' = now) :
    leg.Goes a k cache now' delta := by
  cases a with
  | get => cases leg <;> exact goes
  | put u =>
    cases leg with
    | queued => exact goes
    | asked slot =>
      obtain ⟨hcache, ⟨rfl, hu⟩ | hfull⟩ := goes
      · rw [← hnow u rfl rfl] at hu
        exact ⟨hcache, Or.inl ⟨rfl, hu⟩⟩
      · exact ⟨hcache, Or.inr hfull⟩
    | told r => exact goes
    | noted r => exact goes
  | unsupported name => exact goes

namespace Errand

variable {calls calls' : List Call} {k : Key} {now now' : Value} {j : Nat} {w : Worker}
  {m : Member} {c : Nat} {a : Action}

/-- A worker's get misses and its put hits, so that either goes to the store. -/
theorem begins (errand : Errand calls k now j w m c a .queued)
    (hnow : ∀ v, m.cache[k]? = some v → v = now) {cache : Cache} {reply : Option ClientReply}
    (hstart : m.cache.start k a = (cache, reply)) :
    reply = none ∧ Errand calls k now j w
      { m.take cache [] with work := some ⟨⟨c, a, k⟩, .empty⟩ } c a (.asked .empty) := by
  have hgoes := errand.goes
  cases a with
  | get =>
    have hmiss : m.cache[k]? = none := hgoes
    simp only [Cache.start, hmiss, Option.map_none, Prod.mk.injEq] at hstart
    obtain ⟨rfl, rfl⟩ := hstart
    exact ⟨rfl, errand.stage, errand.call, rfl, rfl, hmiss, Or.inl rfl⟩
  | put u =>
    obtain ⟨v, hcache, rfl⟩ := hgoes
    simp only [Cache.start, Cache.contains_eq, hcache, Option.isSome_some, if_true,
      Prod.mk.injEq] at hstart
    obtain ⟨rfl, rfl⟩ := hstart
    refine ⟨rfl, errand.stage, errand.call, rfl, rfl, ?_, Or.inl ⟨rfl, ?_⟩⟩
    · simp [Member.take]
    · rw [hnow v hcache]
  | unsupported name => exact absurd hgoes id

/-- What the store answers a worker is what the worker wants. -/
theorem resumes {slot : Slot StoreReply} {answer : Option StoreReply} {cache : Cache}
    {r : ClientReply} (errand : Errand calls k now j w m c a (.asked slot))
    (hanswer : slot.answer? = some answer) (hfinish : m.cache.finish k a answer = (cache, r))
    (hcall : calls'[c]? = some ⟨.client j a .attached, k, (Leg.told r).status⟩) :
    Errand calls' k now j w { m with cache, work := none } c a (.told r) ∧
      (Leg.told r).accepted a = (Leg.asked slot).accepted a := by
  have hgoes := errand.goes
  cases a with
  | get =>
    obtain ⟨_, rfl | ⟨v, rfl⟩⟩ := hgoes
    · cases hanswer
    · obtain rfl := Option.some.inj hanswer
      simp only [Cache.finish, Prod.mk.injEq] at hfinish
      obtain ⟨rfl, rfl⟩ := hfinish
      exact ⟨⟨errand.stage, hcall, errand.entries, rfl, v, rfl, by simp⟩, rfl⟩
  | put u =>
    obtain ⟨_, ⟨rfl, _⟩ | ⟨v, rfl⟩⟩ := hgoes
    · cases hanswer
    · obtain rfl := Option.some.inj hanswer
      simp only [Cache.finish, Prod.mk.injEq] at hfinish
      obtain ⟨rfl, rfl⟩ := hfinish
      exact ⟨⟨errand.stage, hcall, errand.entries, rfl, rfl, by simp⟩, rfl⟩
  | unsupported name => exact absurd hgoes id

theorem notes {r : ClientReply} (errand : Errand calls k now j w m c a (.told r))
    (hcall : calls'[c]? = some ⟨.client j a .attached, k, (Leg.noted r).status⟩) :
    Errand calls' k now j w m c a (.noted r) := by
  refine ⟨errand.stage, hcall, errand.entries, errand.work, ?_⟩
  have hgoes := errand.goes
  cases a with
  | get => exact hgoes
  | put u => exact hgoes
  | unsupported name => exact hgoes

/-- Every call of a worker comes off, and no get is a hit. -/
theorem succeeds {r : ClientReply} (errand : Errand calls k now j w m c a (.noted r)) :
    r.ok = true ∧ (a = .get → r.hit = false) := by
  have hgoes := errand.goes
  cases a with
  | get =>
    obtain ⟨v, rfl, _⟩ := hgoes
    exact ⟨rfl, fun _ => rfl⟩
  | put u =>
    obtain ⟨rfl, _⟩ := hgoes
    exact ⟨rfl, fun hget => by cases hget⟩
  | unsupported name => exact absurd hgoes id

end Errand

namespace Standing

variable {calls : List Call} {k : Key} {now now' : Value} {j : Nat} {w : Worker} {m : Member}
  {n : Nat}

/-- Where a worker stands after the store has decided on a request, as long as nobody takes its
client's place in the queue for a key. -/
theorem hears {r : Request Requester} {v : Verdict Requester} {h' : Hand}
    (standing : Standing calls k now j w m n) (heard : Scene.Hears r v j ⟨m.cache, m.work⟩ h')
    (hplace : v ≠ .parked (some (.client j)))
    (hnow : Hand.Holds ⟨m.cache, m.work⟩ k → (Event.served r v).wroteBy j = false → now' = now) :
    Standing calls k now' j w { m with work := h'.work }
      (n + ((Event.served r v).wroteBy j).toNat) := by
  cases heard with
  | kept hown =>
    have hwrote : (Event.served r v).wroteBy j = false := by
      by_contra hwrote
      obtain ⟨hwho, u, x, rfl⟩ := wroteBy_served.mp (by simpa using hwrote)
      obtain ⟨d, hd⟩ := hown hwho
      cases hd
    rw [hwrote]
    cases standing with
    | resting hstage hentries hwork hmiss => exact .resting hstage hentries hwork hmiss
    | working c a leg errand =>
      refine .working c a leg { errand with goes := errand.goes.later ?_ }
      rintro u rfl rfl
      refine hnow (Or.inl ⟨⟨u, errand.goes.1⟩, ?_⟩) hwrote
      rintro ⟨c', v', x, hreleased⟩
      have hempty := hreleased.symm.trans errand.work
      cases hempty
  | granted c u hwork hgrant hother =>
    have hwrote : (Event.served r v).wroteBy j = false := by
      by_contra hwrote
      obtain ⟨hwho, u, x, hv⟩ := wroteBy_served.mp (by simpa using hwrote)
      exact hother u x hv hwho
    obtain ⟨rfl, errand, rfl⟩ := standing.of_work hwork
    rw [hwrote]
    exact .working c .get (.asked (.full ⟨u, true⟩))
      ⟨errand.stage, errand.call, errand.entries, rfl, errand.goes.1, Or.inr ⟨u, rfl⟩⟩
  | displaced c hwork hparked => exact absurd hparked hplace
  | released c u x hown hwork haccepted =>
    have hwrote : (Event.served r v).wroteBy j = true :=
      wroteBy_served.mpr ⟨hown, u, x, haccepted⟩
    obtain ⟨rfl, errand, rfl⟩ := standing.of_work hwork
    rw [hwrote]
    exact .working c (.put u) (.asked (.full ⟨u, true⟩))
      ⟨errand.stage, errand.call, errand.entries, rfl, errand.goes.1, Or.inr ⟨u, rfl⟩⟩

end Standing

end Custody
