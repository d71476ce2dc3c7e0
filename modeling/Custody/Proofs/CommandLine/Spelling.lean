import Custody.CommandLine.Arguments
import Custody.Proofs.Json.Scan

/-!
# What numbers and values look like

A number is read back from its decimal form. A text that makes a number is never taken for an
option, though it may begin with a dash; a text that makes a value of an option does not.
-/

namespace Custody.CommandLine

open Text (digits decimal readDigits readNat readInt)

variable {s : String} {cs : List Char} {n : Nat} {v : Value} {f : Format}

/-- The text of a format. -/
def Format.name : Format → String
  | .text => "text"
  | .json => "json"

def Dashed (s : String) : Prop := s.toList.head? = some '-'

/-- A word, or what looks like a negative number. -/
def Plain (s : String) : Prop :=
  ¬ Dashed s ∨ ∃ cs, s.toList = '-' :: cs ∧ looksNumeric cs = true

/-! ## Tokens -/

theorem ofChars_of_not_dashed (h : ¬ Dashed s) : Token.ofChars s.toList = .word := by
  unfold Dashed at h
  unfold Token.ofChars
  split
  all_goals first
    | rfl
    | rename_i heq
      rw [heq] at h
      exact absurd rfl h

theorem ofChars_negative (h : looksNumeric cs = true) :
    Token.ofChars ('-' :: cs) = .short cs := by
  rw [looksNumeric, Bool.and_eq_true] at h
  unfold Token.ofChars
  split
  · rename_i heq
    rw [(List.cons.inj heq).2] at h
    exact absurd h.1 (by decide)
  · rename_i heq
    rw [(List.cons.inj heq).2] at h
    exact absurd h.1 (by simp)
  · rename_i heq
    rw [(List.cons.inj heq).2] at h
    exact absurd h.1 (by simp)
  · rename_i heq
    rw [(List.cons.inj heq).2]
  · rename_i hshort
    exact absurd rfl (hshort cs)

theorem head_of_looksNumeric (h : looksNumeric cs = true) : cs.head? ≠ some 'h' := by
  rw [looksNumeric, Bool.and_eq_true] at h
  intro heq
  rw [heq] at h
  exact absurd h.1 (by decide)

/-! ## Numbers -/

theorem readDigits_eq_some (h : readDigits cs = some n) :
    cs ≠ [] ∧ ∀ c ∈ cs, c.isDigit = true := by
  unfold readDigits at h
  split at h
  · rename_i hdigits
    exact ⟨hdigits.1, List.all_eq_true.mp hdigits.2⟩
  · cases h

theorem readDigits_minus : readDigits ('-' :: cs) = none := by
  rw [readDigits, if_neg]
  rintro ⟨_, hall⟩
  cases (List.all_eq_true.mp hall) '-' List.mem_cons_self

/-- Nothing but digits looks like a number. -/
theorem looksNumeric_of_readDigits (h : readDigits cs = some n) : looksNumeric cs = true := by
  obtain ⟨hne, hdigits⟩ := readDigits_eq_some h
  obtain ⟨c, rest, rfl⟩ := List.exists_cons_of_ne_nil hne
  have hrest : (c :: rest).dropWhile Char.isDigit = [] := by
    have halts : Json.Halts [] := fun _ h => by cases h
    simpa only [List.append_nil] using (Json.span_of_halts hdigits halts).2
  rw [looksNumeric, hrest, Bool.and_eq_true]
  exact ⟨hdigits c List.mem_cons_self, rfl⟩

theorem plain_of_readValue (h : readValue s = .ok v) : Plain s := by
  by_cases hdash : Dashed s
  · obtain ⟨cs, hcs⟩ : ∃ cs, s.toList = '-' :: cs := List.head?_eq_some_iff.mp hdash
    refine .inr ⟨cs, hcs, ?_⟩
    rw [readValue, hcs, readInt] at h
    cases hread : readDigits cs with
    | none =>
      rw [hread] at h
      cases h
    | some n => exact looksNumeric_of_readDigits hread
  · exact .inl hdash

theorem not_dashed_of_readDepth (h : readDepth s = .ok n) : ¬ Dashed s := by
  intro hdash
  obtain ⟨cs, hcs⟩ : ∃ cs, s.toList = '-' :: cs := List.head?_eq_some_iff.mp hdash
  rw [readDepth, hcs, readNat, readDigits_minus] at h
  · cases h
  · intro cs' heq
    cases heq

theorem not_dashed_of_readFormat (h : readFormat s = .ok f) : ¬ Dashed s := by
  unfold readFormat at h
  split at h
  · rename_i hs
    rw [hs, Dashed]
    decide
  · split at h
    · rename_i hs
      rw [hs, Dashed]
      decide
    · cases h

/-! ## Read back -/

/-- The first digit of a number is no sign. -/
theorem head_digits (n : Nat) : ∀ cs, digits n ≠ '-' :: cs ∧ digits n ≠ '+' :: cs := by
  intro cs
  constructor
  · intro h
    cases Text.isDigit_of_mem_digits (n := n) (h ▸ List.mem_cons_self)
  · intro h
    cases Text.isDigit_of_mem_digits (n := n) (h ▸ List.mem_cons_self)

theorem readNat_digits (n : Nat) : readNat (digits n) = some n := by
  unfold readNat
  split
  · rename_i heq
    exact absurd heq (head_digits n _).2
  · exact Text.readDigits_digits n

theorem readInt_decimal (i : Int) : readInt (decimal i) = some i := by
  cases i with
  | ofNat n =>
    rw [decimal]
    unfold readInt
    split
    · rename_i heq
      exact absurd heq (head_digits n _).1
    · rw [readNat_digits]
      rfl
  | negSucc n =>
    rw [decimal, readInt, Text.readDigits_digits]
    rfl

theorem readValue_decimal (v : Value) : readValue (String.ofList (decimal v.toInt)) = .ok v := by
  rw [readValue, String.toList_ofList, readInt_decimal]
  change (if _ then _ else _) = _
  rw [if_pos ⟨Int64.minValue_le_toInt v, Int64.toInt_le v⟩, Int64.ofInt_toInt]

theorem readDepth_digits (h : n < UInt64.size) :
    readDepth (String.ofList (digits n)) = .ok n := by
  rw [readDepth, String.toList_ofList, readNat_digits]
  change (if _ then _ else _) = _
  rw [if_pos h]

theorem readFormat_name (f : Format) : readFormat f.name = .ok f := by
  cases f <;> rfl

/-! ## What goes wrong with a text -/

/-- The arguments make no command, and the exit code says so. -/
def Refusal.Usage (r : Refusal) : Prop := r.exitCode = 2

/-- When it fails, it is in a certain way. -/
def FailsWith {α : Type} (P : Refusal → Prop) (x : Except Refusal α) : Prop :=
  ∀ r, x = .error r → P r

namespace FailsWith

variable {α β : Type} {P Q : Refusal → Prop} {x : Except Refusal α} {g : α → Except Refusal β}

theorem ok (a : α) : FailsWith P (.ok a) := fun _ h => by cases h

theorem error {r : Refusal} (h : P r) : FailsWith P (.error r : Except Refusal α) :=
  fun _ heq => by
    cases heq
    exact h

theorem bind (hx : FailsWith P x) (hg : ∀ a, x = .ok a → FailsWith P (g a)) :
    FailsWith P (x >>= g) := by
  cases x with
  | error r => exact error (hx r rfl)
  | ok a => exact hg a rfl

theorem mono (hx : FailsWith P x) (h : ∀ r, P r → Q r) : FailsWith Q x :=
  fun r heq => h r (hx r heq)

end FailsWith

theorem usage_readValue (s : String) : FailsWith Refusal.Usage (readValue s) := by
  unfold readValue
  split
  · split
    · exact .ok _
    · exact .error rfl
  · exact .error rfl

theorem usage_readDepth (s : String) : FailsWith Refusal.Usage (readDepth s) := by
  unfold readDepth
  split
  · split
    · exact .ok _
    · exact .error rfl
  · exact .error rfl

theorem usage_readFormat (s : String) : FailsWith Refusal.Usage (readFormat s) := by
  unfold readFormat
  split
  · exact .ok _
  · split
    · exact .ok _
    · exact .error rfl

end Custody.CommandLine
