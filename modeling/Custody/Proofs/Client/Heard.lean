import Custody.Proofs.Client.Halves

/-!
# What a client has heard

A client performs one action after another in front of a store that may do anything: grant a
request with any value, refuse it, let its reply go, or stop listening. Whatever the store does,
the requests it has granted for a key and the puts of that key tell what the client has cached: a
key is cached from a granted read to the next granted write, with the value that was put last.
-/

namespace Custody

/-- An action, and what the store would make of a request: its answer, or none when it lets the
reply go or does not listen any more. -/
structure Exchange where
  key : Key
  action : Action
  answer : Option StoreReply
  deriving DecidableEq, Repr

/-- An exchange that is over, and what the store was asked in it. -/
structure Turn where
  exchange : Exchange
  asked : Option Operation
  deriving DecidableEq, Repr

namespace Turn

/-- The request that was granted in a turn, and the value that came with the reply. -/
def granted? (t : Turn) : Option (Operation × Value) :=
  match t.asked, t.exchange.answer with
  | some op, some ⟨v, true⟩ => some (op, v)
  | _, _ => none

def put? (t : Turn) : Option Value :=
  match t.exchange.action with
  | .put v => some v
  | _ => none

/-- The store has granted a request for `k` in this turn. -/
def grants (t : Turn) (k : Key) : Bool := t.exchange.key == k && t.granted?.isSome

end Turn

/-- The requests for `k` that the store has granted, in order. -/
def grantsOf (turns : List Turn) (k : Key) : List (Operation × Value) :=
  turns.filterMap fun t => if t.exchange.key = k then t.granted? else none

def putsOf (turns : List Turn) (k : Key) : List Value :=
  turns.filterMap fun t => if t.exchange.key = k then t.put? else none

/-- The turns after the last one in which a request for `k` was granted. -/
def sinceGrant (turns : List Turn) (k : Key) : List Turn := turns.rtakeWhile fun t => !t.grants k

/-- The value with which `k` should be cached: the last one put since the read of `k` was granted,
or the one that came with the grant. After a write has been granted, there is none. -/
def heldValue (turns : List Turn) (k : Key) : Option Value :=
  match (grantsOf turns k).getLast? with
  | some (.read, v) => some ((putsOf (sinceGrant turns k) k).getLast?.getD v)
  | _ => none

/-- Reads and writes take turns, and a read comes first. -/
def InTurns (granted : List (Operation × Value)) : Prop :=
  ∀ n op v, granted[n]? = some (op, v) →
    (n % 2 = 0 → op = .read) ∧ (n % 2 = 1 → ∃ w, op = .write w)

namespace Cache

/-- What a client has to ask of the store: for a read of a key that is not cached, and for a write
of one that is. -/
def wants (cache : Cache) (k : Key) : Action → Option Operation
  | .get => if cache[k]?.isSome then none else some .read
  | .put v => if cache[k]?.isSome then some (.write v) else none
  | .unsupported _ => none

/-- The cache after a list of exchanges. -/
def after (cache : Cache) : List Exchange → Cache
  | [] => cache
  | x :: rest => (cache.perform x.key x.action x.answer).1.after rest

/-- The exchanges, with what the store was asked each time. -/
def turns (cache : Cache) : List Exchange → List Turn
  | [] => []
  | x :: rest => ⟨x, (cache.perform x.key x.action x.answer).2.2⟩ ::
      (cache.perform x.key x.action x.answer).1.turns rest

variable {cache : Cache} {x : Exchange} {k : Key}

theorem after_snoc (cache : Cache) (xs : List Exchange) (x : Exchange) :
    cache.after (xs ++ [x]) = ((cache.after xs).perform x.key x.action x.answer).1 := by
  induction xs generalizing cache with
  | nil => rfl
  | cons y rest ih =>
    rw [List.cons_append, after, after]
    exact ih _

theorem turns_append (cache : Cache) (xs ys : List Exchange) :
    cache.turns (xs ++ ys) = cache.turns xs ++ (cache.after xs).turns ys := by
  induction xs generalizing cache with
  | nil => rfl
  | cons x rest ih => rw [List.cons_append, turns, turns, ih, after, List.cons_append]

theorem turns_snoc (cache : Cache) (xs : List Exchange) (x : Exchange) :
    cache.turns (xs ++ [x]) = cache.turns xs ++
      [⟨x, ((cache.after xs).perform x.key x.action x.answer).2.2⟩] :=
  turns_append cache xs [x]

theorem length_turns (cache : Cache) (xs : List Exchange) :
    (cache.turns xs).length = xs.length := by
  induction xs generalizing cache with
  | nil => rfl
  | cons x rest ih => rw [turns, List.length_cons, ih, List.length_cons]

/-! ## One action -/

theorem asked_perform (cache : Cache) (k : Key) (a : Action) (answer : Option StoreReply) :
    (cache.perform k a answer).2.2 = cache.wants k a := by
  cases hstart : cache.start k a with
  | mk next reply =>
    cases reply with
    | some r =>
      have hasked : (cache.perform k a answer).2.2 = none := by simp [perform, hstart]
      rw [hasked]
      obtain ⟨_, ⟨rfl, v, hv, _⟩ | ⟨v, rfl, hv, _⟩ | ⟨name, rfl, _⟩⟩ := start_settles hstart
      · simp [wants, hv]
      · simp [wants, hv]
      · rfl
    | none =>
      have hasked : (cache.perform k a answer).2.2 = some a.operation := by
        simp [perform, hstart]
      rw [hasked]
      rcases start_asks hstart with ⟨rfl, hv, _⟩ | ⟨v, rfl, hv, _⟩
      · simp [wants, hv, Action.operation]
      · simp [wants, hv, Action.operation]

/-- A client that has nothing to ask leaves its cache as it is. -/
theorem perform_of_settled (answer : Option StoreReply) {a : Action}
    (h : cache.wants k a = none) : (cache.perform k a answer).1 = cache := by
  cases hstart : cache.start k a with
  | mk next reply =>
    cases reply with
    | some r =>
      obtain ⟨rfl, _⟩ := start_settles hstart
      simp [perform, hstart]
    | none =>
      rw [← asked_perform cache k a answer] at h
      simp [perform, hstart] at h

/-- Where the store has to be asked, a put changes the cached value before it is. -/
theorem perform_of_asked {op : Operation} (answer : Option StoreReply) {a : Action}
    (h : cache.wants k a = some op) : (a = .get ∧ op = .read ∧ cache[k]? = none ∧
        (cache.perform k a answer).1 = (cache.finish k .get answer).1) ∨
      ∃ v, a = .put v ∧ op = .write v ∧ cache[k]?.isSome ∧
        (cache.perform k a answer).1 = (finish (cache.insert k v) k (.put v) answer).1 := by
  cases hstart : cache.start k a with
  | mk next reply =>
    rw [← asked_perform cache k a answer] at h
    cases reply with
    | some r => simp [perform, hstart] at h
    | none =>
      obtain rfl : a.operation = op := by simpa [perform, hstart] using h
      rcases start_asks hstart with ⟨rfl, hmiss, rfl⟩ | ⟨v, rfl, hcached, rfl⟩
      · left
        simp [perform, hstart, hmiss, Action.operation]
      · right
        refine ⟨v, rfl, rfl, hcached, ?_⟩
        simp only [perform, hstart]

theorem finish_get (cache : Cache) (k : Key) (answer : Option StoreReply) :
    (cache.finish k .get answer).1 = match answer with
      | some ⟨v, true⟩ => cache.insert k v
      | _ => cache := by
  rcases answer with _ | ⟨v, _ | _⟩ <;> rfl

theorem finish_put (cache : Cache) (k : Key) (v : Value) (answer : Option StoreReply) :
    (cache.finish k (.put v) answer).1 = match answer with
      | some ⟨_, true⟩ => cache.erase k
      | _ => cache := by
  rcases answer with _ | ⟨v, _ | _⟩ <;> rfl

/-- An action on one key changes nothing about another. -/
theorem perform_of_other (cache : Cache) (x : Exchange) (hkey : x.key ≠ k) :
    (cache.perform x.key x.action x.answer).1[k]? = cache[k]? := by
  cases hwants : cache.wants x.key x.action with
  | none => rw [perform_of_settled x.answer hwants]
  | some op =>
    rcases perform_of_asked x.answer hwants with ⟨_, _, _, hlast⟩ | ⟨v, _, _, _, hlast⟩
    · rw [hlast, finish_get]
      split
      · rw [getElem?_insert_key, if_neg hkey]
      · rfl
    · rw [hlast, finish_put]
      split
      · rw [getElem?_erase_key, if_neg hkey, getElem?_insert_key, if_neg hkey]
      · rw [getElem?_insert_key, if_neg hkey]

/-- What an action does to its own key is told by the grant, and where there is none, by the put. -/
theorem perform_own (cache : Cache) (x : Exchange) :
    (cache.perform x.key x.action x.answer).1[x.key]? =
      match (Turn.mk x (cache.wants x.key x.action)).granted? with
      | some (.read, v) => some v
      | some _ => none
      | none => cache[x.key]?.map fun w =>
          (Turn.mk x (cache.wants x.key x.action)).put?.getD w := by
  obtain ⟨key, action, answer⟩ := x
  simp only
  cases hwants : cache.wants key action with
  | none =>
    rw [perform_of_settled answer hwants]
    cases hcached : cache[key]? with
    | none => simp [Turn.granted?]
    | some w =>
      -- of a cached key only a put could change the value, and for it the store is asked
      cases action with
      | get => simp [Turn.granted?, Turn.put?]
      | put v => simp [wants, hcached] at hwants
      | unsupported name => simp [Turn.granted?, Turn.put?]
  | some op =>
    rcases perform_of_asked answer hwants with
      ⟨rfl, rfl, hmiss, hlast⟩ | ⟨v, rfl, rfl, hcached, hlast⟩
    · rw [hlast, finish_get]
      rcases answer with _ | ⟨v, _ | _⟩ <;> simp [Turn.granted?, Turn.put?, hmiss]
    · obtain ⟨w, hw⟩ := Option.isSome_iff_exists.mp hcached
      rw [hlast, finish_put]
      rcases answer with _ | ⟨u, _ | _⟩ <;> simp [Turn.granted?, Turn.put?, hw]

end Cache

/-! ## Many actions -/

variable {log : List Turn} {t : Turn} {k : Key}

theorem grantsOf_snoc (log : List Turn) (t : Turn) (k : Key) :
    grantsOf (log ++ [t]) k = grantsOf log k ++
      if t.exchange.key = k then t.granted?.toList else [] := by
  rw [grantsOf, List.filterMap_append, ← grantsOf]
  by_cases hkey : t.exchange.key = k
  · cases hg : t.granted? <;> simp [hkey, hg]
  · simp [hkey]

theorem putsOf_snoc (log : List Turn) (t : Turn) (k : Key) :
    putsOf (log ++ [t]) k = putsOf log k ++
      if t.exchange.key = k then t.put?.toList else [] := by
  rw [putsOf, List.filterMap_append, ← putsOf]
  by_cases hkey : t.exchange.key = k
  · cases hp : t.put? <;> simp [hkey, hp]
  · simp [hkey]

theorem sinceGrant_snoc (log : List Turn) (t : Turn) (k : Key) :
    sinceGrant (log ++ [t]) k = if t.grants k then [] else sinceGrant log k ++ [t] := by
  rw [sinceGrant, List.rtakeWhile_concat]
  cases t.grants k <;> rfl

theorem heldValue_of_other (hkey : t.exchange.key ≠ k) :
    heldValue (log ++ [t]) k = heldValue log k := by
  have hnone : t.grants k = false := by simp [Turn.grants, hkey]
  simp only [heldValue, grantsOf_snoc, sinceGrant_snoc, putsOf_snoc, hnone, if_neg hkey,
    List.append_nil, Bool.false_eq_true, if_false]

theorem heldValue_own (log : List Turn) (t : Turn) :
    heldValue (log ++ [t]) t.exchange.key = match t.granted? with
      | some (.read, v) => some v
      | some _ => none
      | none => (heldValue log t.exchange.key).map fun w => t.put?.getD w := by
  cases hg : t.granted? with
  | some g =>
    have hgrants : t.grants t.exchange.key = true := by simp [Turn.grants, hg]
    obtain ⟨op, v⟩ := g
    cases op <;>
      simp [heldValue, grantsOf_snoc, sinceGrant_snoc, hgrants, hg, putsOf]
  | none =>
    have hgrants : t.grants t.exchange.key = false := by simp [Turn.grants, hg]
    simp only [heldValue, grantsOf_snoc, sinceGrant_snoc, putsOf_snoc, hg, hgrants,
      Option.toList_none, if_true, List.append_nil, Bool.false_eq_true, if_false]
    split
    · cases hp : t.put? <;> simp
    · rfl

theorem inTurns_nil : InTurns [] := by
  intro n op v h
  simp at h

theorem InTurns.snoc {granted : List (Operation × Value)} {op : Operation} {v : Value}
    (inTurns : InTurns granted) (hread : granted.length % 2 = 0 → op = .read)
    (hwrite : granted.length % 2 = 1 → ∃ w, op = .write w) : InTurns (granted ++ [(op, v)]) := by
  intro n op' v' h
  by_cases hn : n < granted.length
  · rw [List.getElem?_append_left hn] at h
    exact inTurns n op' v' h
  · have hlen := (List.getElem?_eq_some_iff.mp h).1
    rw [List.length_append, List.length_singleton] at hlen
    obtain rfl : n = granted.length := by omega
    obtain ⟨rfl, rfl⟩ : op = op' ∧ v = v' := by simpa using h
    exact ⟨hread, hwrite⟩

/-- A key is held after an odd number of grants. -/
theorem InTurns.held_iff (inTurns : InTurns (grantsOf log k)) :
    (heldValue log k).isSome ↔ (grantsOf log k).length % 2 = 1 := by
  rw [heldValue, List.getLast?_eq_getElem?]
  cases hlast : (grantsOf log k)[(grantsOf log k).length - 1]? with
  | none =>
    have hlen := List.getElem?_eq_none_iff.mp hlast
    simp only [Option.isSome_none, Bool.false_eq_true, false_iff]
    omega
  | some g =>
    obtain ⟨op, v⟩ := g
    obtain ⟨heven, hodd⟩ := inTurns _ op v hlast
    have hlen := (List.getElem?_eq_some_iff.mp hlast).1
    by_cases hparity : (grantsOf log k).length % 2 = 1
    · obtain rfl := heven (by omega)
      simp [hparity]
    · obtain ⟨w, rfl⟩ := hodd (by omega)
      simp [hparity]

namespace Cache

/-- A client asks next for what has its turn. -/
theorem next_of_wants {cache : Cache} {a : Action} {op : Operation}
    (inTurns : InTurns (grantsOf log k)) (hheld : cache[k]? = heldValue log k)
    (hwants : cache.wants k a = some op) :
    ((grantsOf log k).length % 2 = 0 → op = .read) ∧
      ((grantsOf log k).length % 2 = 1 → ∃ w, op = .write w) := by
  have hparity := inTurns.held_iff
  rw [← hheld] at hparity
  rcases perform_of_asked none hwants with ⟨_, hop, hmiss, _⟩ | ⟨v, _, hop, hcached, _⟩
  · rw [hmiss] at hparity
    refine ⟨fun _ => hop, fun hodd => ?_⟩
    cases hparity.mpr hodd
  · have hodd := hparity.mp hcached
    exact ⟨fun heven => by omega, fun _ => ⟨v, hop⟩⟩

/-- What is granted in a turn was asked for in it. -/
theorem asked_of_granted {op : Operation} {v : Value} (h : t.granted? = some (op, v)) :
    t.asked = some op := by
  unfold Turn.granted? at h
  split at h
  · rename_i op' v' hasked _
    obtain ⟨rfl, _⟩ := Prod.mk.inj (Option.some.inj h)
    exact hasked
  · cases h

/-- What is cached after some exchanges is told by the grants, and these took turns. -/
theorem held_after (xs : List Exchange) (k : Key) :
    (after ∅ xs)[k]? = heldValue (turns ∅ xs) k ∧ InTurns (grantsOf (turns ∅ xs) k) := by
  induction xs using List.reverseRecOn with
  | nil => exact ⟨by simp [after, turns, heldValue, grantsOf], inTurns_nil⟩
  | append_singleton xs x ih =>
    obtain ⟨hheld, inTurns⟩ := ih
    rw [after_snoc, turns_snoc, asked_perform]
    by_cases hkey : x.key = k
    · subst hkey
      have hown := heldValue_own (turns ∅ xs) ⟨x, (after ∅ xs).wants x.key x.action⟩
      refine ⟨by rw [perform_own, hown, hheld], ?_⟩
      rw [grantsOf_snoc, if_pos rfl]
      cases hg : (Turn.mk x ((after ∅ xs).wants x.key x.action)).granted? with
      | none => simpa using inTurns
      | some g =>
        obtain ⟨op, v⟩ := g
        obtain ⟨hread, hwrite⟩ := next_of_wants inTurns hheld (asked_of_granted hg)
        exact inTurns.snoc hread hwrite
    · have hother : heldValue (turns ∅ xs ++ [⟨x, (after ∅ xs).wants x.key x.action⟩]) k =
          heldValue (turns ∅ xs) k := heldValue_of_other hkey
      rw [perform_of_other _ x hkey, hother, hheld, grantsOf_snoc, if_neg hkey, List.append_nil]
      exact ⟨rfl, inTurns⟩

/-- Whatever the store does, a client asks it at most once in each exchange, for what it has to;
what it has cached is told by what it was granted and by its puts; reads and writes of a key are
granted in turns; and an exchange leaves all other keys alone. -/
theorem cached_as_heard (xs : List Exchange) :
    (∀ early x late, xs = early ++ x :: late →
      (turns ∅ xs)[early.length]? = some ⟨x, (after ∅ early).wants x.key x.action⟩) ∧
    (∀ k, (after ∅ xs)[k]? = heldValue (turns ∅ xs) k) ∧
    (∀ k, InTurns (grantsOf (turns ∅ xs) k)) ∧
    ∀ x k, x.key ≠ k → (after ∅ (xs ++ [x]))[k]? = (after ∅ xs)[k]? := by
  refine ⟨?_, fun k => (held_after xs k).1, fun k => (held_after xs k).2, ?_⟩
  · rintro early x late rfl
    have hlen := length_turns ∅ early
    rw [turns_append, List.getElem?_append_right (by omega), hlen, Nat.sub_self, turns,
      asked_perform]
    rfl
  · intro x k hkey
    rw [after_snoc]
    exact perform_of_other _ x hkey

end Cache

end Custody
