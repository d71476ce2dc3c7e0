import Custody.Proofs.Calls.Kept
import Custody.Proofs.Order.Lane
import Custody.Proofs.Scene.Simulation

/-!
# Keys of one's own

When nobody else uses the keys that one client is called for, this is so wherever a request comes:
in the client's inbox and in its hand, in the store's queue and where it is parked.
-/

namespace Custody

/-- The key that a label uses, and the client that is to use it; a caller of the store uses it
without one. -/
def Label.use? : Label → Option (Key × Option Nat)
  | .act (.call (.client j _ _) k) => some (k, some j)
  | .act (.call (.store _) k) => some (k, none)
  | _ => none

/-- The keys that are used in a run, each with the client that is to use it. -/
def uses (labels : List Label) : List (Key × Option Nat) := labels.filterMap Label.use?

/-- Nobody else uses a key for which client `i` is called. -/
def OwnKeys (labels : List Label) (i : Nat) : Prop :=
  ∀ x ∈ uses labels, ∀ y ∈ uses labels, x.2 = some i → y.1 = x.1 → y.2 = some i

instance (labels : List Label) (i : Nat) : Decidable (OwnKeys labels i) :=
  inferInstanceAs (Decidable (∀ x ∈ _, ∀ y ∈ _, _))

/-- A label for one of the keys `mine` is a call on client `i`, and any other is not. -/
def Label.Parts (mine : Key → Prop) (i : Nat) (l : Label) : Prop :=
  ∀ k j, l.use? = some (k, j) → (mine k ↔ j = some i)

theorem OwnKeys.parts {labels : List Label} {i : Nat} (own : OwnKeys labels i) :
    ∀ l ∈ labels, l.Parts (fun k => (k, some i) ∈ uses labels) i := by
  intro l hl k j huse
  have hmem : (k, j) ∈ uses labels := List.mem_filterMap.mpr ⟨l, hl, huse⟩
  constructor
  · intro hown
    exact own _ hown _ hmem rfl rfl
  · rintro rfl
    exact hmem

/-- Nobody asks the store but the clients. -/
def Rules.unasked : Rules where
  asks _ := False
  stops := True
  closes := True

namespace Scene

/-- Only client `i` asks for the keys `mine`, and it asks for no other. -/
structure Apart (mine : Key → Prop) (i : Nat) (a : Scene) : Prop where
  asked : ∀ r ∈ a.queue, (mine r.key ↔ r.who = .client i)
  parked : ∀ k x, a.store.waiter k = some x → (mine k ↔ x = .client i)

variable {mine : Key → Prop} {i : Nat} {a b : Scene} {r : Request Requester} {es : List Event}

theorem Apart.sent (apart : a.Apart mine i) (hr : mine r.key ↔ r.who = .client i) :
    (a.sent r).Apart mine i where
  asked q hq := by
    rcases List.mem_append.mp hq with hq | hq
    · exact apart.asked q hq
    · rw [List.mem_singleton.mp hq]
      exact hr
  parked := apart.parked

theorem Apart.cleared {rest : List (Request Requester)} (apart : a.Apart mine i)
    (hrest : rest.Sublist a.queue) : (a.cleared rest).Apart mine i where
  asked q hq := apart.asked q (hrest.subset hq)
  parked := apart.parked

theorem Apart.handed {h : Option Hand} {j : Nat} (apart : a.Apart mine i) :
    (a.handed j h).Apart mine i := ⟨apart.asked, apart.parked⟩

/-- Whoever comes to wait was in the queue before. -/
theorem Apart.served {present : Requester → Bool} {rest : List (Request Requester)}
    (apart : a.Apart mine i) (hqueue : a.queue = r :: rest) :
    (a.served present r rest).Apart mine i where
  asked q hq := apart.asked q ((mem_queue hqueue).2 q hq)
  parked k x hx := by
    obtain ⟨hwaits, _⟩ | ⟨rfl, rfl, _⟩ := Store.waiter_cases hx
    · exact apart.parked k x hwaits
    · exact apart.asked r (mem_queue hqueue).1

theorem Apart.step (apart : a.Apart mine i) (hstep : Step Rules.unasked a es b)
    (hasked : ∀ j job h, es = [.asked j job] → b.hand j = some h → (mine job.key ↔ j = i)) :
    b.Apart mine i := by
  cases hstep with
  | aside _ _ => exact apart
  | post r c _ hop => exact hop.elim
  | withdraw rest hrest _ => exact apart.cleared hrest
  | stop j rest _ _ hrest _ => exact (apart.cleared hrest).handed
  | serve present r rest hqueue _ => exact apart.served hqueue
  | ask j h job cache _ _ _ =>
    refine apart.handed.sent ?_
    rw [hasked j job _ rfl ((hand_handed a j _ j).trans (if_pos rfl))]
    exact ⟨fun hj => by rw [hj], fun hj => Requester.client.inj hj⟩
  | settle => exact apart.handed
  | finish => exact apart.handed

end Scene

namespace Cluster

variable {setup : Setup} {s t : Cluster} {labels : List Label} {l : Label} {es now : List Event}
  {mine : Key → Prop} {i j : Nat} {m : Member} {job : Job}

/-- Every call was made by a label. -/
theorem label_of_call (h : (start setup).run labels = some (s, es)) {c : Nat} {call : Call}
    (hcall : s.calls[c]? = some call) : .act (.call call.target call.key) ∈ labels := by
  refine history_induction (s := start setup) (P := fun labels s _ => ∀ c call,
    s.calls[c]? = some call → .act (.call call.target call.key) ∈ labels) ?_ ?_ h c call hcall
  · intro c call hcall
    cases hcall
  · intro past u before l t now _ hpast hstep c call hcall
    obtain ⟨call', hcall', hagrees⟩ | ⟨_, rfl⟩ := call_before hstep hcall
    · rw [hagrees.1, hagrees.2]
      exact List.mem_append_left _ (hpast c call' hcall')
    · exact List.mem_append_right _ List.mem_cons_self

theorem label_of_issued (h : (start setup).run labels = some (s, es)) (hjob : job ∈ s.issued i) :
    ∃ manner, .act (.call (.client i job.action manner) job.key) ∈ labels := by
  obtain ⟨call, manner, hcall, htarget, hkey⟩ := mem_issued.mp hjob
  refine ⟨manner, ?_⟩
  rw [← htarget, ← hkey]
  exact label_of_call h hcall

/-- What a client has taken up or has in its inbox was issued to it, so it is for one of its keys,
and for none of anybody else's. -/
theorem parts_of_line (h : (start setup).run labels = some (s, es))
    (parts : ∀ l ∈ labels, l.Parts mine i) (hm : s.members[j]? = some m)
    (hjob : job ∈ takenUp es j ++ m.inbox.entries) : mine job.key ↔ j = i := by
  obtain ⟨manner, hlabel⟩ :=
    label_of_issued h (mem_agenda.mp ((inLine_run h hm).listed.subset hjob)).1
  rw [parts _ hlabel job.key (some j) rfl, Option.some_inj]

theorem lenient_allow (hkill : l ≠ .act .killStore) : Rules.lenient.Allow l := by
  cases l with
  | act a =>
    cases a with
    | call target k => cases target <;> trivial
    | killStore => exact hkill rfl
    | _ => trivial
  | move m => trivial

theorem attended_of_run (h : (start setup).run labels = some (s, es))
    (hkill : .act .killStore ∉ labels) : Attended Rules.lenient s :=
  attended_run (fun _ hl => lenient_allow fun heq => hkill (heq ▸ hl)) (attended_start setup) h

theorem requests_send (s : Cluster) (r : Request Requester) :
    (s.send (.request r)).requests = s.requests ++ [r] := by
  rw [requests, entries_send, List.filterMap_append]
  rfl

/-- A caller of the store asks for a key that is not client `i`'s. -/
theorem apart_call {op : Operation} {k : Key} (hcall : s.call (.store op) k = some t)
    (hrun : t.keeper.running = true) (hmine : ¬ mine k)
    (apart : s.keeper.running = true → s.scene.Apart mine i) : t.scene.Apart mine i := by
  obtain ⟨_, ⟨hbefore, rfl⟩ | ⟨hbefore, rfl⟩⟩ := call_store_cases hcall
  · have hsent := (apart hbefore).sent (r := ⟨op, k, .caller s.calls.length⟩)
      ⟨fun hk => absurd hk hmine, nofun⟩
    have hqueue : ((s.enter (.store op) k (.pending false .empty)).send
        (.request ⟨op, k, .caller s.calls.length⟩)).requests = (s.scene.sent _).queue :=
      requests_send _ _
    exact ⟨fun r hr => hsent.asked r (hqueue ▸ hr), hsent.parked⟩
  · exact absurd (show s.keeper.running = true from hrun) (by simp [hbefore])

/-- It stays so as long as the store runs. -/
theorem apart_step (h : (start setup).run labels = some (s, es)) (hkill : .act .killStore ∉ labels)
    (parts : ∀ l' ∈ labels ++ [l], l'.Parts mine i) (hl : l ≠ .act .killStore)
    (hstep : s.step l = some (t, now)) (hrun : t.keeper.running = true)
    (apart : s.keeper.running = true → s.scene.Apart mine i) : t.scene.Apart mine i := by
  have attended := attended_of_run h hkill
  by_cases hstore : ∃ op k, l = .act (.call (.store op) k)
  · obtain ⟨op, k, rfl⟩ := hstore
    refine apart_call (step_act hstep).1 hrun ?_ apart
    rw [parts _ (List.mem_append_right _ List.mem_cons_self) k none rfl]
    nofun
  · have hallow : Rules.unasked.Allow l := by
      unfold Rules.Allow
      split
      · exact hstore ⟨_, _, rfl⟩
      · trivial
      · trivial
      · trivial
      · exact hl rfl
      · trivial
    have unasked : Attended Rules.unasked s :=
      ⟨attended.orderly, attended.outlived, attended.kept⟩
    obtain ⟨hbefore, hscene⟩ := scene_step unasked hallow hstep hrun
    refine (apart hbefore).step hscene fun j job hand hnow hhand => ?_
    obtain ⟨m, hm, _⟩ := hand_eq_some_iff.mp hhand
    rw [hnow] at hstep
    exact parts_of_line (run_snoc h hstep) parts hm (by simp [takenUp_asked])

theorem apart_run (h : (start setup).run labels = some (s, es))
    (parts : ∀ l ∈ labels, l.Parts mine i) (hkill : .act .killStore ∉ labels)
    (hrun : s.keeper.running = true) : s.scene.Apart mine i := by
  refine history_induction (s := start setup) (P := fun labels s _ =>
    (∀ l ∈ labels, l.Parts mine i) → .act .killStore ∉ labels → s.keeper.running = true →
      s.scene.Apart mine i) ?_ ?_ h parts hkill hrun
  · intro _ _ _
    exact ⟨nofun, fun k x hx => by simp [scene, start, Store.waiter] at hx⟩
  · intro past u before l t now hpast ih hstep parts hkill hrun
    obtain ⟨hearly, hlast⟩ := notMem_snoc hkill
    exact apart_step hpast hearly parts hlast hstep hrun
      (ih (fun l' hl' => parts l' (List.mem_append_left _ hl')) hearly)

end Cluster

end Custody
