import Custody.Proofs.Coherence.Invariant
import Custody.Proofs.Scene.Simulation

/-!
# One holder at a time

When only clients write, a key has at most one holder in every cluster that can be reached: a
client that has it cached, a client to which it is on its way, or a caller of the store that was
granted it. What the holder has is what the store has, unless the holder is about to change it.
-/

namespace Custody

/-- Callers of the store may do anything but write. -/
def Rules.readOnly (stops closes : Prop) : Rules where
  asks op := ∀ v, op ≠ .write v
  stops := stops
  closes := closes

inductive Holder where
  | cached (i : Nat)
  | promised (i : Nat)
  | outside (n : Nat)
  deriving DecidableEq, Repr

/-- The holder's name in the history. -/
def Holder.custodian : Holder → Custodian
  | cached i => .client i
  | promised i => .client i
  | outside n => .outside n

namespace Cluster

/-- Who holds `k` after the events `es`, and with which value. A client's put takes the key out of
its hands as soon as the store has accepted it. -/
inductive Holds (s : Cluster) (es : List Event) (k : Key) : Holder → Value → Prop where
  | cached {i : Nat} {h : Hand} {v : Value} (hi : s.hand i = some h) (hcache : h.cache[k]? = some v)
      (hkept : ¬ h.Released k) : s.Holds es k (.cached i) v
  | promised {i : Nat} {h : Hand} {v : Value} (hi : s.hand i = some h) (hv : h.Promised k v) :
      s.Holds es k (.promised i) v
  | outside {n c : Nat} {e : Event} {v : Value} (he : es[n]? = some e)
      (hgrant : e.grant? = some ⟨k, .caller c, v⟩) : s.Holds es k (.outside n) v

/-- The holder is a client with a put of `k` under way. -/
def Writing (s : Cluster) (k : Key) (x : Holder) : Prop :=
  ∃ i h, x = .cached i ∧ s.hand i = some h ∧ h.Putting k

variable {R : Rules} {setup : Setup} {labels : List Label} {s : Cluster} {es : List Event}
  {k : Key} {x y : Holder} {v w : Value}

theorem coherent_run (hwrites : ∀ v, ¬ R.asks (.write v)) (allowed : ∀ l ∈ labels, R.Allow l)
    (h : (start setup).run labels = some (s, es)) (hrun : s.keeper.running = true) :
    s.scene.Coherent es := by
  refine scene_induction (P := Scene.Coherent) ?_ ?_ allowed h hrun
  · rw [scene_start]
    exact Scene.coherent_start _ fun i h => hand_start
  · exact fun a past now b coherent hstep => Scene.coherent_step hwrites coherent hstep

theorem running_of_run (hcloses : ¬ R.closes) (allowed : ∀ l ∈ labels, R.Allow l)
    (h : (start setup).run labels = some (s, es)) : s.keeper.running = true :=
  ((attended_run allowed (attended_start setup) h).kept hcloses).2

theorem Holds.custody (coherent : s.scene.Coherent es) (h : s.Holds es k x v) :
    custody es k = some x.custodian := by
  cases h with
  | cached hi hcache hkept => exact coherent.held _ _ k hi (Or.inl ⟨⟨v, hcache⟩, hkept⟩)
  | promised hi hv => exact coherent.held _ _ k hi (Or.inr ⟨v, hv⟩)
  | outside he hgrant => exact (coherent.lent _ _ k _ v he hgrant).1

/-- A client does not wait for a key that it has. -/
theorem not_promised_of_cached (coherent : s.scene.Coherent es) {i : Nat} {h h' : Hand}
    (hi : s.hand i = some h) (hcache : h.cache[k]? = some v) (hi' : s.hand i = some h') :
    ¬ h'.Promised k w := by
  rintro ⟨c, hwork⟩
  obtain rfl : h = h' := Option.some.inj (hi.symm.trans hi')
  have hmiss : h.cache[k]? = none := coherent.sound i h hi _ hwork
  rw [hcache] at hmiss
  cases hmiss

theorem Holds.unique (coherent : s.scene.Coherent es) (hx : s.Holds es k x v)
    (hy : s.Holds es k y w) : x = y := by
  have hsame : x.custodian = y.custodian :=
    Option.some.inj ((hx.custody coherent).symm.trans (hy.custody coherent))
  cases hx with
  | cached hi hcache =>
    cases hy with
    | cached => exact congrArg _ (Custodian.client.inj hsame)
    | promised hj hw =>
      obtain rfl := Custodian.client.inj hsame
      exact absurd hw (not_promised_of_cached coherent hi hcache hj)
    | outside => cases hsame
  | promised hi hv =>
    cases hy with
    | cached hj hcache =>
      obtain rfl := Custodian.client.inj hsame
      exact absurd hv (not_promised_of_cached coherent hj hcache hi)
    | promised => exact congrArg _ (Custodian.client.inj hsame)
    | outside => cases hsame
  | outside =>
    cases hy with
    | cached => cases hsame
    | promised => cases hsame
    | outside => exact congrArg _ (Custodian.outside.inj hsame)

theorem Holds.value (coherent : s.scene.Coherent es) (h : s.Holds es k x v)
    (hidle : ¬ s.Writing k x) : v = lastWritten es k := by
  cases h with
  | cached hi hcache hkept =>
    exact coherent.shown _ _ k v hi (Or.inl ⟨hcache, fun hput => hidle ⟨_, _, rfl, hi, hput⟩⟩)
  | promised hi hv => exact coherent.shown _ _ k v hi (Or.inr hv)
  | outside he hgrant => exact (coherent.lent _ _ k _ v he hgrant).2

theorem at_most_one_holder (allowed : ∀ l ∈ labels, (Rules.readOnly True False).Allow l)
    (h : (start setup).run labels = some (s, es)) (k : Key) :
    (∀ x v y w, s.Holds es k x v → s.Holds es k y w → x = y) ∧
      ∀ x v, s.Holds es k x v → s.keeper.store.isOwned k = true ∧
        (¬ s.Writing k x → s.keeper.store.value k = some v) := by
  have coherent : s.scene.Coherent es :=
    coherent_run (R := .readOnly True False) (fun v hasks => hasks v rfl) allowed h
      (running_of_run id allowed h)
  refine ⟨fun x v y w hx hy => hx.unique coherent hy, fun x v hx => ?_⟩
  have howned := coherent.isOwned (hx.custody coherent)
  refine ⟨howned, fun hidle => ?_⟩
  obtain ⟨u, hu⟩ := Option.isSome_iff_exists.mp (coherent.valued k howned)
  have hlast := coherent.value k
  rw [hu] at hlast
  rw [hx.value coherent hidle, ← hlast]
  exact hu

/-- Client 0 gets a key and reads it once more, client 1 waits for it, and client 0 puts it. -/
def puttingLabels : List Label :=
  [.act (.call (.client 0 .get .attached) "k"), .move (.begin 0), .move .serve, .move (.resume 0),
    .act (.call (.client 0 .get .attached) "k"), .move (.begin 0),
    .act (.call (.client 1 .get .attached) "k"), .move (.begin 1), .move .serve,
    .act (.call (.client 0 (.put 7) .attached) "k"), .move (.begin 0)]

theorem at_most_one_holder_after_handover :
    ∃ s es, (start ⟨[⟨"a", 1⟩, ⟨"b", 1⟩], 1⟩).run (puttingLabels ++ [.move .serve]) =
        some (s, es) ∧
      s.Holds es "k" (.promised 1) 7 ∧ (∀ x v, s.Holds es "k" x v → .promised 1 = x) ∧
      s.keeper.store.isOwned "k" = true ∧ s.keeper.store.value "k" = some 7 := by
  have allowed : ∀ l ∈ puttingLabels ++ [.move .serve], (Rules.readOnly True False).Allow l := by
    simp [puttingLabels, Rules.Allow]
  obtain ⟨s, es, h, hpromised⟩ : ∃ s es,
      (start ⟨[⟨"a", 1⟩, ⟨"b", 1⟩], 1⟩).run (puttingLabels ++ [.move .serve]) = some (s, es) ∧
        s.Holds es "k" (.promised 1) 7 := ⟨_, _, rfl, .promised rfl ⟨2, rfl⟩⟩
  obtain ⟨hone, hheld⟩ := at_most_one_holder allowed h "k"
  obtain ⟨howned, hvalue⟩ := hheld _ _ hpromised
  have hidle : ¬ s.Writing "k" (.promised 1) := by
    rintro ⟨i, h, hcached, _⟩
    cases hcached
  exact ⟨s, es, h, hpromised, fun x v => hone _ 7 x v hpromised, howned, hvalue hidle⟩

end Cluster

end Custody
