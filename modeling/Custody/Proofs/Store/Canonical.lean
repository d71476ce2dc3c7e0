import Custody.Proofs.Json.Forms
import Custody.Proofs.Store.Separation

/-!
# Snapshots are canonical

A snapshot lists what the store has, no more and no less, in one order. So two stores have the same
snapshot, and the same JSON text of it, when no key tells them apart, however they came to be what
they are.
-/

namespace Custody

/-- Code point by code point, `a` stands before `b`. -/
def Key.Before (a b : Key) : Prop := a.toList.map Char.toNat < b.toList.map Char.toNat

theorem Key.before_of_compare {a b : Key} (h : compare a b = .lt) : a.Before b := by
  have hless : a.toList < b.toList := String.lt_iff_toList_lt.mp (compare_lt_iff_lt.mp h)
  refine List.map_lt (fun c d hcd => ?_) hless
  exact UInt32.lt_iff_toNat_lt.mp hcd

theorem Key.Before.asymm {a b : Key} (h : a.Before b) : ¬ b.Before a := lt_asymm h

/-- In ascending order no entry stands twice. -/
theorem nodup_of_ascending {α : Type} (key : α → Key) {l : List α}
    (h : l.Pairwise fun a b => (key a).Before (key b)) : l.Nodup := by
  refine h.imp fun hbefore hsame => ?_
  subst hsame
  exact hbefore.asymm hbefore

/-- And there is only one list of the same entries. -/
theorem eq_of_ascending {α : Type} (key : α → Key) {l l' : List α}
    (h : l.Pairwise fun a b => (key a).Before (key b))
    (h' : l'.Pairwise fun a b => (key a).Before (key b)) (hmem : ∀ a, a ∈ l ↔ a ∈ l') : l = l' := by
  have hperm : l.Perm l' := (List.perm_ext_iff_of_nodup (nodup_of_ascending key h)
    (nodup_of_ascending key h')).mpr hmem
  exact hperm.eq_of_pairwise (fun a b _ _ hab hba => absurd hba hab.asymm) h h'

/-- The snapshot lists what the store has, every key once and in ascending order. -/
structure Snapshot.Of {ρ : Type} (shot : Snapshot) (s : Store ρ) : Prop where
  values : ∀ k v, (k, v) ∈ shot.values ↔ s.value k = some v
  owned : ∀ k, k ∈ shot.owned ↔ s.isOwned k = true
  waiting : ∀ k, k ∈ shot.waiting ↔ s.hasWaiter k = true
  valuesAscend : (shot.values.map Prod.fst).Pairwise Key.Before
  ownedAscend : shot.owned.Pairwise Key.Before
  waitingAscend : shot.waiting.Pairwise Key.Before

namespace Store

variable {ρ σ : Type}

theorem of_snapshot (s : Store ρ) : s.snapshot.Of s where
  values k v := Std.ExtTreeMap.mem_toList_iff_getElem?_eq_some
  owned k := by
    rw [snapshot, Std.ExtTreeSet.mem_toList, Std.ExtTreeSet.mem_iff_contains, isOwned]
  waiting k := by
    rw [snapshot, Std.ExtTreeMap.mem_keys, Std.ExtTreeMap.mem_iff_contains, hasWaiter]
  valuesAscend := by
    rw [snapshot, Std.ExtTreeMap.map_fst_toList_eq_keys]
    exact Std.ExtTreeMap.ordered_keys.imp Key.before_of_compare
  ownedAscend := Std.ExtTreeSet.ordered_toList.imp Key.before_of_compare
  waitingAscend := Std.ExtTreeMap.ordered_keys.imp Key.before_of_compare

end Store

namespace Snapshot

variable {ρ σ : Type} {shot shot' : Snapshot} {s : Store ρ} {s' : Store σ}

/-- There is only one snapshot of stores that no key tells apart. -/
theorem Of.unique (h : shot.Of s) (h' : shot'.Of s')
    (hvalue : ∀ k, s.value k = s'.value k) (howned : ∀ k, s.isOwned k = s'.isOwned k)
    (hwaiter : ∀ k, s.hasWaiter k = s'.hasWaiter k) : shot = shot' := by
  have hvalues : shot.values = shot'.values := by
    refine eq_of_ascending Prod.fst (List.pairwise_map.mp h.valuesAscend)
      (List.pairwise_map.mp h'.valuesAscend) fun kv => ?_
    rw [h.values, h'.values, hvalue]
  have howneds : shot.owned = shot'.owned := by
    refine eq_of_ascending id h.ownedAscend h'.ownedAscend fun k => ?_
    rw [h.owned, h'.owned, howned]
  have hwaitings : shot.waiting = shot'.waiting := by
    refine eq_of_ascending id h.waitingAscend h'.waitingAscend fun k => ?_
    rw [h.waiting, h'.waiting, hwaiter]
  obtain ⟨values, owned, waiting⟩ := shot
  obtain rfl : values = shot'.values := hvalues
  obtain rfl : owned = shot'.owned := howneds
  obtain rfl : waiting = shot'.waiting := hwaitings
  rfl

theorem Of.agree (h : shot.Of s) (h' : shot.Of s') (k : Key) :
    s.value k = s'.value k ∧ s.isOwned k = s'.isOwned k ∧ s.hasWaiter k = s'.hasWaiter k := by
  refine ⟨Option.ext fun v => ?_, ?_, ?_⟩
  · rw [← h.values, h'.values]
  · rw [Bool.eq_iff_iff, ← h.owned, h'.owned]
  · rw [Bool.eq_iff_iff, ← h.waiting, h'.waiting]

/-- The keys are the member names of the values. -/
theorem Of.tidy (h : shot.Of s) : shot.json.Tidy := by
  have hkeys : ((shot.values.map fun kv => (kv.1, Value.json kv.2)).map Prod.fst).Nodup := by
    rw [List.map_map]
    exact nodup_of_ascending id h.valuesAscend
  have hvalues : (Json.record (shot.values.map fun kv => (kv.1, Value.json kv.2))).Tidy := by
    refine .record _ hkeys fun m hm => ?_
    obtain ⟨kv, _, rfl⟩ := List.mem_map.mp hm
    exact .int _
  have htexts : ∀ l : List Key, (Json.list (l.map .text)).Tidy := by
    intro l
    refine .list _ fun v hv => ?_
    obtain ⟨k, _, rfl⟩ := List.mem_map.mp hv
    exact .text k
  refine .record _ (by simp) ?_
  simp [hvalues, htexts]

end Snapshot

/-- Whatever requests have led to the stores, and whoever has gone away: the snapshot lists what the
store has, its JSON text is decoded to it, and the texts of two of them are the same just when no
key tells the stores apart. -/
theorem snapshot_canonical (steps steps' : List Desk.Step) :
    (Desk.run {} steps).store.snapshot.Of (Desk.run {} steps).store ∧
      (∃ j, Json.parse? (Desk.run {} steps).store.snapshot.json.render = some j ∧ j.Tidy ∧
        Snapshot.ofJson? j = some (Desk.run {} steps).store.snapshot) ∧
      ((Desk.run {} steps).store.snapshot.json.render =
          (Desk.run {} steps').store.snapshot.json.render ↔
        ∀ k, (Desk.run {} steps).store.value k = (Desk.run {} steps').store.value k ∧
          (Desk.run {} steps).store.isOwned k = (Desk.run {} steps').store.isOwned k ∧
          (Desk.run {} steps).store.hasWaiter k = (Desk.run {} steps').store.hasWaiter k) := by
  have shown := (Desk.run {} steps).store.of_snapshot
  have shown' := (Desk.run {} steps').store.of_snapshot
  refine ⟨shown, ⟨_, Json.parse?_render _, shown.tidy, Snapshot.ofJson?_json _⟩, ?_, ?_⟩
  · intro hsame
    have hjson := congrArg Snapshot.ofJson? (Json.render_injective hsame)
    rw [Snapshot.ofJson?_json, Snapshot.ofJson?_json] at hjson
    rw [← Option.some.inj hjson] at shown'
    exact shown.agree shown'
  · intro hagree
    rw [shown.unique shown' (fun k => (hagree k).1) (fun k => (hagree k).2.1)
      fun k => (hagree k).2.2]

end Custody
