import Custody.Proofs.Json.Scan
import Custody.Text.Quoted

/-!
# Quoted text is read back

Whatever a text holds, between its quotes there is no control character, and no quote but behind a
backslash. So a reader finds the closing quote, and with it the text and what follows.
-/

namespace Custody.Text

/-- A quote that does not stand behind a backslash. -/
def hasBareQuote : List Char → Bool
  | [] => false
  | '\\' :: _ :: rest => hasBareQuote rest
  | c :: rest => c == '"' || hasBareQuote rest

/-- The control characters of Unicode. -/
def isControl (c : Char) : Bool :=
  c.toNat < 0x20 || (0x7f ≤ c.toNat && c.toNat < 0xa0)

/-- What stands between the quotes. -/
def inner (s : String) : List Char := s.toList.flatMap quoteChar

variable {c l : Char} {cs rest : List Char} {n d : Nat} {s t : String}

/-! ## Code points -/

/-- A code point is its last digit behind the digits of the others. -/
theorem hex_of_le (h : 16 ≤ n) : hex n = hex (n / 16) ++ [(n % 16).digitChar] :=
  Nat.toDigits_of_base_le (by decide) h

theorem hex_of_lt (h : n < 16) : hex n = [n.digitChar] := Nat.toDigits_of_lt_base h

theorem mem_hex (h : c ∈ hex n) : ∃ d, d < 16 ∧ c = d.digitChar := by
  induction n using Nat.strongRecOn with
  | ind n ih =>
    by_cases hn : n < 16
    · rw [hex_of_lt hn, List.mem_singleton] at h
      exact ⟨n, hn, h⟩
    · rw [hex_of_le (Nat.not_lt.mp hn), List.mem_append, List.mem_singleton] at h
      rcases h with h | h
      · exact ih (n / 16) (by omega) h
      · exact ⟨n % 16, by omega, h⟩

/-- A hexadecimal digit is none of the characters that matter in a quoted text. -/
theorem digitChar_plain (h : d < 16) :
    d.digitChar ≠ '"' ∧ d.digitChar ≠ '\\' ∧ d.digitChar ≠ '\x7d' ∧
      isControl d.digitChar = false := by
  revert d
  decide

theorem readQuotedFrom_digit (m : Nat) (h : d < 16) :
    readQuotedFrom (.number m) (d.digitChar :: rest) =
      readQuotedFrom (.number (m * 16 + d)) rest := by
  rw [readQuotedFrom, if_neg (digitChar_plain h).2.2.1, Json.hexDigit?_digitChar h]
  rfl

theorem readQuotedFrom_hex (n : Nat) (rest : List Char) :
    readQuotedFrom (.number 0) (hex n ++ rest) = readQuotedFrom (.number n) rest := by
  induction n using Nat.strongRecOn generalizing rest with
  | ind n ih =>
    by_cases hn : n < 16
    · rw [hex_of_lt hn, List.singleton_append, readQuotedFrom_digit 0 hn, Nat.zero_mul,
        Nat.zero_add]
    · rw [hex_of_le (Nat.not_lt.mp hn), List.append_assoc, ih (n / 16) (by omega),
        List.singleton_append, readQuotedFrom_digit _ (by omega), Nat.div_add_mod']

/-! ## Characters -/

theorem unquoteLetter?_of_quoteLetter? (h : quoteLetter? c = some l) :
    unquoteLetter? l = some c ∧ l ≠ 'u' ∧ isControl l = false := by
  unfold quoteLetter? at h
  split at h
  all_goals first
    | cases h
      exact ⟨rfl, by decide, by decide⟩
    | cases h

/-- One character is read back, however it is written. -/
theorem readQuotedFrom_quoteChar (c : Char) (rest : List Char) :
    readQuotedFrom .plain (quoteChar c ++ rest) =
      (readQuotedFrom .plain rest).map fun p => (c :: p.1, p.2) := by
  unfold quoteChar
  split
  · rename_i l hl
    obtain ⟨hback, hu, _⟩ := unquoteLetter?_of_quoteLetter? hl
    simp only [List.cons_append, List.nil_append]
    rw [readQuotedFrom, if_neg (by decide), if_pos rfl, readQuotedFrom, if_neg hu, hback]
    cases readQuotedFrom .plain rest <;> rfl
  · rename_i hl
    split
    · have hvalid : c.toNat.isValidChar := c.valid
      have hchar : charOf? c.toNat = some c := by
        rw [charOf?, if_pos hvalid, Char.ofNat_toNat]
      simp only [List.cons_append, List.append_assoc, List.nil_append]
      rw [readQuotedFrom, if_neg (by decide), if_pos rfl, readQuotedFrom, if_pos rfl,
        readQuotedFrom, if_pos rfl, readQuotedFrom_hex, readQuotedFrom, if_pos rfl, hchar]
      cases readQuotedFrom .plain rest <;> rfl
    · have hquote : c ≠ '"' := by
        rintro rfl
        cases hl
      have hslash : c ≠ '\\' := by
        rintro rfl
        cases hl
      rw [List.singleton_append, readQuotedFrom, if_neg hquote, if_neg hslash]
      cases readQuotedFrom .plain rest <;> rfl

theorem readQuoted_quoted (s : String) (rest : List Char) :
    readQuoted (quoted s ++ rest) = some (s, rest) := by
  have hinner : ∀ cs : List Char,
      readQuotedFrom .plain (cs.flatMap quoteChar ++ '"' :: rest) = some (cs, rest) := by
    intro cs
    induction cs with
    | nil => rfl
    | cons c cs ih =>
      rw [List.flatMap_cons, List.append_assoc, readQuotedFrom_quoteChar, ih]
      rfl
  rw [quoted, List.cons_append, List.append_assoc, List.singleton_append, readQuoted, hinner]
  simp

/-- No quoted text is the beginning of another. -/
theorem quoted_append_inj {rest' : List Char} (h : quoted s ++ rest = quoted t ++ rest') :
    s = t ∧ rest = rest' := by
  have hread := congrArg readQuoted h
  rw [readQuoted_quoted, readQuoted_quoted] at hread
  exact Prod.mk.inj (Option.some.inj hread)

/-! ## Between the quotes -/

theorem quoted_eq (s : String) : quoted s = '"' :: (inner s ++ ['"']) := rfl

/-- Characters that are neither quote nor backslash do not matter. -/
theorem hasBareQuote_append (h : ∀ c ∈ cs, c ≠ '"' ∧ c ≠ '\\') :
    hasBareQuote (cs ++ rest) = hasBareQuote rest := by
  induction cs with
  | nil => rfl
  | cons c cs ih =>
    obtain ⟨hquote, hslash⟩ := h c List.mem_cons_self
    rw [List.cons_append, hasBareQuote, ih fun c hc => h c (List.mem_cons_of_mem _ hc),
      beq_false_of_ne hquote, Bool.false_or]
    intro l rest' hc
    exact absurd hc hslash

theorem hasBareQuote_quoteChar (c : Char) (rest : List Char) :
    hasBareQuote (quoteChar c ++ rest) = hasBareQuote rest := by
  unfold quoteChar
  split
  · rfl
  · rename_i hl
    split
    · have hpoint : ∀ x ∈ '\x7b' :: (hex c.toNat ++ ['\x7d']), x ≠ '"' ∧ x ≠ '\\' := by
        intro x hx
        rcases List.mem_cons.mp hx with rfl | hx
        · decide
        · rcases List.mem_append.mp hx with hx | hx
          · obtain ⟨d, hd, rfl⟩ := mem_hex hx
            exact ⟨(digitChar_plain hd).1, (digitChar_plain hd).2.1⟩
          · rw [List.mem_singleton.mp hx]
            decide
      change hasBareQuote ('\x7b' :: (hex c.toNat ++ ['\x7d']) ++ rest) = _
      exact hasBareQuote_append hpoint
    · refine hasBareQuote_append fun x hx => ?_
      rw [List.mem_singleton.mp hx]
      constructor
      · rintro rfl
        cases hl
      · rintro rfl
        cases hl

theorem hasBareQuote_inner (s : String) : hasBareQuote (inner s) = false := by
  unfold inner
  induction s.toList with
  | nil => rfl
  | cons c cs ih => rw [List.flatMap_cons, hasBareQuote_quoteChar, ih]

/-- No control character shows. -/
theorem isUnprintable_of_isControl (h : isControl c = true) : isUnprintable c = true := by
  simp only [isControl, Bool.or_eq_true, Bool.and_eq_true, decide_eq_true_eq] at h
  rw [isUnprintable, List.any_eq_true]
  rcases h with h | h
  · exact ⟨(0x0, 0x1f), List.mem_cons_self, by simp; omega⟩
  · exact ⟨(0x7f, 0xa0), List.mem_cons_of_mem _ List.mem_cons_self, by simp; omega⟩

theorem isControl_of_mem_quoteChar {x : Char} (h : x ∈ quoteChar c) : isControl x = false := by
  unfold quoteChar at h
  split at h
  · rename_i l hl
    rcases List.mem_cons.mp h with rfl | h
    · decide
    · rw [List.mem_singleton.mp h]
      exact (unquoteLetter?_of_quoteLetter? hl).2.2
  · split at h
    · simp only [List.mem_cons, List.mem_append, List.not_mem_nil, or_false] at h
      rcases h with rfl | rfl | rfl | h | rfl
      · decide
      · decide
      · decide
      · obtain ⟨d, hd, rfl⟩ := mem_hex h
        exact (digitChar_plain hd).2.2.2
      · decide
    · rename_i hprintable
      rw [List.mem_singleton.mp h, ← Bool.not_eq_true]
      exact fun hcontrol => hprintable (isUnprintable_of_isControl hcontrol)

theorem isControl_of_mem_inner (h : c ∈ inner s) : isControl c = false := by
  obtain ⟨x, _, hx⟩ := List.mem_flatMap.mp h
  exact isControl_of_mem_quoteChar hx

end Custody.Text
