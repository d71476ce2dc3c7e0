import Custody.Json.Reader

/-!
# Numbers and strings

A number that is written in decimal, and a string that is written with its escapes, are read back as
they were, and reading stops right behind them.
-/

namespace Custody

namespace Text

theorem isDigit_of_mem_digits {n : Nat} {c : Char} (h : c ∈ digits n) : c.isDigit = true :=
  Nat.isDigit_of_mem_toDigits (by decide) (by decide) h

theorem digits_ne_nil (n : Nat) : digits n ≠ [] := Nat.toDigits_ne_nil

theorem readDigits_digits (n : Nat) : readDigits (digits n) = some n := by
  have hall : (digits n).all Char.isDigit = true :=
    List.all_eq_true.mpr fun c hc => isDigit_of_mem_digits hc
  rw [readDigits, if_pos ⟨digits_ne_nil n, hall⟩, digits, Nat.ofDigitChars_ten_toDigits]

/-- Only zero begins with a zero. -/
theorem digits_of_head_zero {n : Nat} (h : (digits n).head? = some '0') : digits n = ['0'] := by
  induction n using Nat.strongRecOn with
  | ind n ih =>
    by_cases hn : n < 10
    · rw [digits, Nat.toDigits_of_lt_base hn] at h ⊢
      exact congrArg (fun c => [c]) (Option.some.inj h)
    · have hsplit : digits n = digits (n / 10) ++ [(n % 10).digitChar] :=
        Nat.toDigits_of_base_le (by decide) (Nat.not_lt.mp hn)
      rw [hsplit, List.head?_append,
        Option.or_of_isSome (List.isSome_head?.mpr (digits_ne_nil (n / 10)))] at h
      -- the digits in front would be those of zero
      have hzero : n / 10 = 0 := by
        have hread := readDigits_digits (n / 10)
        rw [ih (n / 10) (Nat.div_lt_self (by omega) (by decide)) h] at hread
        exact (Option.some.inj hread).symm
      omega

end Text

namespace Json

variable {n : Nat} {c l : Char} {cs rest : List Char} {s : String}

/-! ## Numbers -/

/-- The text does not go on with a digit. -/
def Halts (cs : List Char) : Prop := ∀ c ∈ cs.head?, c.isDigit = false

theorem span_of_halts (hdigits : ∀ c ∈ cs, c.isDigit = true) (halts : Halts rest) :
    (cs ++ rest).takeWhile Char.isDigit = cs ∧ (cs ++ rest).dropWhile Char.isDigit = rest := by
  have hrest : rest.takeWhile Char.isDigit = [] ∧ rest.dropWhile Char.isDigit = rest := by
    cases rest with
    | nil => exact ⟨rfl, rfl⟩
    | cons c rest => simp [halts c rfl]
  rw [List.takeWhile_append_of_pos hdigits, List.dropWhile_append_of_pos hdigits, hrest.1, hrest.2,
    List.append_nil]
  exact ⟨rfl, rfl⟩

theorem readDigits_digits (n : Nat) (halts : Halts rest) :
    readDigits (Text.digits n ++ rest) = some (n, rest) := by
  obtain ⟨htake, hdrop⟩ := span_of_halts (fun c hc => Text.isDigit_of_mem_digits hc) halts
  have hzero : ¬ ((Text.digits n).head? = some '0' ∧ Text.digits n ≠ ['0']) :=
    fun h => h.2 (Text.digits_of_head_zero h.1)
  rw [readDigits, htake, hdrop, if_neg hzero, Text.readDigits_digits]
  rfl

theorem readNumber_decimal (i : Int) (halts : Halts rest) :
    readNumber (Text.decimal i ++ rest) = some (i, rest) := by
  cases i with
  | ofNat n =>
    rw [Text.decimal, readNumber, readDigits_digits n halts]
    · rfl
    · intro cs hminus
      obtain ⟨c, ds, hds⟩ := List.exists_cons_of_ne_nil (Text.digits_ne_nil n)
      rw [hds, List.cons_append] at hminus
      have hdigit : c.isDigit = true :=
        Text.isDigit_of_mem_digits (n := n) (hds ▸ List.mem_cons_self)
      rw [(List.cons.inj hminus).1] at hdigit
      cases hdigit
  | negSucc n =>
    rw [Text.decimal, List.cons_append, readNumber, readDigits_digits (n + 1) halts]
    rfl

/-! ## Strings -/

theorem unletter?_of_letter? (h : letter? c = some l) : unletter? l = some c ∧ l ≠ 'u' := by
  unfold letter? at h
  split at h
  all_goals first
    | cases h
      exact ⟨rfl, by decide⟩
    | cases h

theorem hexDigit?_digitChar (hn : n < 16) : Text.hexDigit? n.digitChar = some n := by
  revert n
  decide

theorem ofHex?_of_lt (h : c.toNat < 0x20) :
    ofHex? '0' '0' (c.toNat / 16).digitChar (c.toNat % 16).digitChar = some c := by
  have hzero : Text.hexDigit? '0' = some 0 := rfl
  have hsum : (0 * 16 + 0) * 256 + (c.toNat / 16 * 16 + c.toNat % 16) = c.toNat := by omega
  have hvalid : c.toNat.isValidChar := c.valid
  simp only [ofHex?, hzero, hexDigit?_digitChar (n := c.toNat / 16) (by omega),
    hexDigit?_digitChar (n := c.toNat % 16) (by omega), Option.bind_eq_bind, Option.bind_some, hsum,
    Text.charOf?, if_pos hvalid, Char.ofNat_toNat]

/-- One character is read back, however it is written. -/
theorem readText_writeChar (c : Char) (rest : List Char) :
    readText (writeChar c ++ rest) = (readText rest).map fun p => (c :: p.1, p.2) := by
  unfold writeChar
  split
  · rename_i l hl
    obtain ⟨hback, hu⟩ := unletter?_of_letter? hl
    simp only [List.cons_append, List.nil_append]
    rw [readText, hback]
    · cases readText rest <;> rfl
    · intro a b c' d rest' h
      exact absurd h hu
  · rename_i hl
    split
    · rename_i hlow
      simp only [List.cons_append, List.nil_append]
      rw [readText, ofHex?_of_lt hlow]
      cases readText rest <;> rfl
    · rename_i hhigh
      have hquote : c ≠ '"' := by
        rintro rfl
        cases hl
      have hslash : c ≠ '\\' := by
        rintro rfl
        cases hl
      rw [List.cons_append, List.nil_append, readText, if_neg (by simp [hhigh, hslash])]
      · cases readText rest <;> rfl
      · exact hquote
      · intro a b c' d rest' h
        exact absurd h hslash
      · intro l rest' h
        exact absurd h hslash

theorem readText_writeText (s : String) (rest : List Char) :
    readText (s.toList.flatMap writeChar ++ '"' :: rest) = some (s.toList, rest) := by
  induction s.toList with
  | nil => rfl
  | cons c cs ih =>
    rw [List.flatMap_cons, List.append_assoc, readText_writeChar, ih]
    rfl

end Json

end Custody
