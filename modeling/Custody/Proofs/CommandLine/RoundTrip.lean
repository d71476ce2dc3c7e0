import Custody.Proofs.CommandLine.Layout

/-!
# What is written is what is parsed

However the options are placed around the two numbers and whichever way they have their values, the
parser gets out what was written. One option too many, a number too few or too many, or a text that
does not belong where it stands, and nothing is parsed.
-/

namespace Custody.CommandLine

variable {ps before after : List Piece} {first second : Value} {format : Option Format}
variable {depth : Option Nat} {s t w : String} {o : Opt} {x : Piece} {more : List String}
  {v : Value}
variable {α : Type} {read : String → Except Refusal α} {ss : List String} {a : Option α}

/-- The two numbers in decimal, and at most one value for each option. -/
structure Written (ps : List Piece) (first second : Value) (format : Option Format)
    (depth : Option Nat) : Prop where
  numbers : numbersOf ps =
    [String.ofList (Text.decimal first.toInt), String.ofList (Text.decimal second.toInt)]
  format : valuesOf .format ps = format.toList.map Format.name
  depth : valuesOf .depth ps = depth.toList.map fun n => String.ofList (Text.digits n)

theorem Written.asks (h : Written ps first second format depth)
    (hdepth : ∀ n ∈ depth, n < UInt64.size) : Asks ps first second format depth where
  numbers := ⟨_, _, h.numbers, readValue_decimal first, readValue_decimal second⟩
  format := by
    rw [h.format]
    cases format with
    | none => exact .absent
    | some f => exact .given (readFormat_name f)
  depth := by
    rw [h.depth]
    cases depth with
    | none => exact .absent
    | some n => exact .given (readDepth_digits (hdepth n rfl))

/-! ## Texts in their places -/

namespace Piece

/-- The text belongs where it stands. -/
def Valid : Piece → Prop
  | number s => ∃ v, readValue s = .ok v
  | option .format _ s => ∃ f, readFormat s = .ok f
  | option .depth _ s => ∃ n, readDepth s = .ok n

/-- The same number or option with another text. -/
def withText (t : String) : Piece → Piece
  | number _ => number t
  | option o attached _ => option o attached t

theorem Valid.plain (h : x.Valid) : Plain x.text := by
  cases x with
  | number s =>
    obtain ⟨v, hv⟩ := h
    exact plain_of_readValue hv
  | option o attached s =>
    cases o with
    | format =>
      obtain ⟨f, hf⟩ := h
      exact .inl (not_dashed_of_readFormat hf)
    | depth =>
      obtain ⟨n, hn⟩ := h
      exact .inl (not_dashed_of_readDepth hn)

theorem text_withText (x : Piece) (t : String) : (x.withText t).text = t := by
  cases x <;> rfl

end Piece

theorem Once.read_of_mem (h : Once read ss a) (hs : s ∈ ss) : ∃ f, read s = .ok f := by
  cases h with
  | absent => cases hs
  | given hread =>
    rw [List.mem_singleton.mp hs]
    exact ⟨_, hread⟩

theorem Once.length_le (h : Once read ss a) : ss.length ≤ 1 := by
  cases h with
  | absent => exact Nat.zero_le 1
  | given _ => exact Nat.le_refl 1

theorem mem_numbersOf (h : .number s ∈ ps) : s ∈ numbersOf ps :=
  List.mem_filterMap.mpr ⟨_, h, rfl⟩

theorem mem_valuesOf {attached : Bool} (h : .option o attached s ∈ ps) : s ∈ valuesOf o ps :=
  List.mem_filterMap.mpr ⟨_, h, if_pos rfl⟩

theorem Asks.valid (h : Asks ps first second format depth) (hx : x ∈ ps) : x.Valid := by
  cases x with
  | number s =>
    obtain ⟨s₁, s₂, hnumbers, h₁, h₂⟩ := h.numbers
    have hs := mem_numbersOf hx
    rw [hnumbers, List.mem_cons, List.mem_singleton] at hs
    rcases hs with rfl | rfl
    · exact ⟨_, h₁⟩
    · exact ⟨_, h₂⟩
  | option o attached s =>
    cases o with
    | format => exact h.format.read_of_mem (mem_valuesOf hx)
    | depth => exact h.depth.read_of_mem (mem_valuesOf hx)

theorem Asks.plain (h : Asks ps first second format depth) : ∀ x ∈ ps, Plain x.text :=
  fun _ hx => (h.valid hx).plain

theorem Asks.length_numbersOf (h : Asks ps first second format depth) :
    (numbersOf ps).length = 2 := by
  obtain ⟨s, t, hnumbers, _⟩ := h.numbers
  rw [hnumbers]
  rfl

theorem Asks.length_valuesOf (h : Asks ps first second format depth) (o : Opt) :
    (valuesOf o ps).length ≤ 1 := by
  cases o with
  | format => exact h.format.length_le
  | depth => exact h.depth.length_le

theorem Asks.parse (h : Asks ps first second format depth) :
    parse ("demo" :: argsOf ps) = .ok ⟨first, second, format.getD .text, depth.getD 1⟩ := by
  change parseDemo (argsOf ps) = _
  exact (parseDemo_eq_ok_iff h.plain).mpr ⟨_, _, _, _, h, rfl⟩

/-! ## Spoiled lists -/

/-- The arguments behind `demo` make no command. -/
def Refused (args : List String) : Prop :=
  ∃ r, parse ("demo" :: args) = .error r ∧ r.exitCode = 2

theorem refused_of_not_asks (hps : ∀ x ∈ ps, Plain x.text)
    (h : ∀ first second format depth, ¬ Asks ps first second format depth) :
    Refused (argsOf ps) := by
  cases hparse : parseDemo (argsOf ps) with
  | error r => exact ⟨r, hparse, usage_parseDemo hps r hparse⟩
  | ok d =>
    obtain ⟨_, _, _, _, hasks, _⟩ := (parseDemo_eq_ok_iff hps).mp hparse
    exact absurd hasks (h _ _ _ _)

/-- An option that waits for its value does not get another option for one. -/
theorem refused_of_waiting (hbefore : ∀ x ∈ before, Plain x.text) (o : Opt)
    (hw : ∀ p : Progress, p.escaped = false → p.settle = .error .invalidValue →
      p.argument w = .error .invalidValue) :
    Refused (argsOf before ++ o.word :: w :: more) := by
  change ∃ r, parseDemo _ = _ ∧ _
  rw [parseDemo, List.foldlM_append]
  have htracks := tracks_argsOf hbefore
  generalize (argsOf before).foldlM Progress.argument {} = a at htracks ⊢
  generalize before.foldlM Piece.store {} = b at htracks
  cases htracks with
  | refused h => exact ⟨_, rfl, h⟩
  | ready h =>
    rename_i p
    change ∃ r, ((o.word :: w :: more).foldlM Progress.argument p >>= _) = _ ∧ _
    rw [List.foldlM_cons, Progress.argument_word h.unescaped]
    cases hsettle : p.settle with
    | error r => exact ⟨r, rfl, p.usage_settle r hsettle⟩
    | ok e =>
      have hopen : e.escaped = false :=
        (Progress.settle_ok hsettle).2.1.trans h.unescaped
      change ∃ r, ((w :: more).foldlM Progress.argument { e with pending := some (o.place, none) }
        >>= _) = _ ∧ _
      rw [List.foldlM_cons, hw { e with pending := some (o.place, none) } hopen rfl]
      exact ⟨_, rfl, rfl⟩

/-- A place between two numbers or options, or between an option and its value. -/
def Splits (ps : List Piece) (i : Nat) : Prop :=
  (∃ before after, ps = before ++ after ∧ (argsOf ps).take i = argsOf before ∧
    (argsOf ps).drop i = argsOf after) ∨
  ∃ before o s after, ps = before ++ .option o false s :: after ∧
    (argsOf ps).take i = argsOf before ++ [o.word] ∧ (argsOf ps).drop i = s :: argsOf after

theorem argsOf_cons (x : Piece) (ps : List Piece) : argsOf (x :: ps) = x.args ++ argsOf ps :=
  List.flatMap_cons

theorem Splits.cons {i : Nat} (x : Piece) (h : Splits ps i) :
    Splits (x :: ps) (x.args.length + i) := by
  unfold Splits
  rw [argsOf_cons, List.take_length_add_append, List.drop_length_add_append]
  rcases h with ⟨before, after, rfl, htake, hdrop⟩ | ⟨before, o, s, after, rfl, htake, hdrop⟩
  · refine .inl ⟨x :: before, after, rfl, ?_, hdrop⟩
    rw [htake, argsOf_cons]
  · refine .inr ⟨x :: before, o, s, after, rfl, ?_, hdrop⟩
    rw [htake, argsOf_cons, List.append_assoc]

theorem splits_zero (ps : List Piece) : Splits ps 0 := .inl ⟨[], ps, rfl, rfl, rfl⟩

/-- Every place in an argument list is of this kind. -/
theorem splits (ps : List Piece) (i : Nat) : Splits ps i := by
  induction ps generalizing i with
  | nil => exact .inl ⟨[], [], rfl, List.take_nil, List.drop_nil⟩
  | cons x ps ih =>
    by_cases hi : x.args.length ≤ i
    · rw [← Nat.add_sub_cancel' hi]
      exact (ih _).cons x
    · cases i with
      | zero => exact splits_zero _
      | succ i =>
        cases x with
        | number s => exact absurd (Nat.le_add_left 1 i) hi
        | option o attached s =>
          cases attached with
          | true => exact absurd (Nat.le_add_left 1 i) hi
          | false =>
            have hzero : i = 0 := by
              have htwo : ¬ 2 ≤ i + 1 := hi
              omega
            subst hzero
            exact .inr ⟨[], o, s, ps, rfl, rfl, rfl⟩

theorem argsOf_append (ps qs : List Piece) : argsOf (ps ++ qs) = argsOf ps ++ argsOf qs :=
  List.flatMap_append

/-- An option that is given again, with whatever value and wherever. -/
theorem Asks.refused_again (h : Asks ps first second format depth) (hgiven : valuesOf o ps ≠ [])
    (hs : ¬ Dashed s) (attached : Bool) (i : Nat) :
    Refused ((argsOf ps).take i ++ (Piece.option o attached s).args ++ (argsOf ps).drop i) := by
  rcases splits ps i with ⟨before, after, rfl, htake, hdrop⟩ |
    ⟨before, o', s', after, rfl, htake, hdrop⟩
  · obtain ⟨hbefore, hafter⟩ := List.forall_mem_append.mp h.plain
    have hargs : argsOf before ++ (Piece.option o attached s).args ++ argsOf after =
        argsOf (before ++ .option o attached s :: after) := by
      rw [argsOf_append, argsOf_cons, List.append_assoc]
    rw [htake, hdrop, hargs]
    refine refused_of_not_asks (List.forall_mem_append.mpr
      ⟨hbefore, List.forall_mem_cons.mpr ⟨.inl hs, hafter⟩⟩) fun _ _ _ _ hasks => ?_
    -- there are two values now
    have hlength := hasks.length_valuesOf o
    have hpos := List.length_pos_iff.mpr hgiven
    simp only [valuesOf_append, valuesOf_option_self, List.length_append, List.length_cons]
      at hlength hpos
    omega
  · obtain ⟨hbefore, _⟩ := List.forall_mem_append.mp h.plain
    rw [htake, hdrop]
    cases attached with
    | true =>
      have hrefused : Refused
          (argsOf before ++ o'.word :: (o.word ++ "=" ++ s) :: s' :: argsOf after) :=
        refused_of_waiting hbefore o' fun p hopen hwaits => by
          rw [Progress.argument_attached hopen, hwaits]
          rfl
      simpa [Piece.args] using hrefused
    | false =>
      have hrefused : Refused (argsOf before ++ o'.word :: o.word :: s :: s' :: argsOf after) :=
        refused_of_waiting hbefore o' fun p hopen hwaits => by
          rw [Progress.argument_word hopen, hwaits]
          rfl
      simpa [Piece.args] using hrefused

theorem Asks.refused_removed (h : Asks ps first second format depth)
    (hps : ps = before ++ .number s :: after) : Refused (argsOf (before ++ after)) := by
  subst hps
  obtain ⟨hbefore, hmore⟩ := List.forall_mem_append.mp h.plain
  refine refused_of_not_asks (List.forall_mem_append.mpr
    ⟨hbefore, (List.forall_mem_cons.mp hmore).2⟩) fun _ _ _ _ hasks => ?_
  have htwo := h.length_numbersOf
  have hone := hasks.length_numbersOf
  simp only [numbersOf_append, numbersOf_number, List.length_append, List.length_cons] at htwo hone
  omega

theorem Asks.refused_third (h : Asks ps first second format depth) (hs : readValue s = .ok v)
    (i : Nat) : Refused ((argsOf ps).take i ++ [s] ++ (argsOf ps).drop i) := by
  have hplain : Plain s := plain_of_readValue hs
  have htwo := h.length_numbersOf
  rcases splits ps i with ⟨before, after, rfl, htake, hdrop⟩ |
    ⟨before, o, t, after, rfl, htake, hdrop⟩
  · obtain ⟨hbefore, hafter⟩ := List.forall_mem_append.mp h.plain
    have hargs : argsOf before ++ [s] ++ argsOf after = argsOf (before ++ .number s :: after) := by
      rw [argsOf_append, argsOf_cons, List.append_assoc]
      rfl
    rw [htake, hdrop, hargs]
    refine refused_of_not_asks (List.forall_mem_append.mpr
      ⟨hbefore, List.forall_mem_cons.mpr ⟨hplain, hafter⟩⟩) fun _ _ _ _ hasks => ?_
    have hthree := hasks.length_numbersOf
    simp only [numbersOf_append, numbersOf_number, List.length_append, List.length_cons]
      at htwo hthree
    omega
  · -- the option takes the number for its value, and its value is taken for a number
    obtain ⟨hbefore, hmore⟩ := List.forall_mem_append.mp h.plain
    obtain ⟨ht, hafter⟩ := List.forall_mem_cons.mp hmore
    have hargs : argsOf before ++ [o.word] ++ [s] ++ t :: argsOf after =
        argsOf (before ++ .option o false s :: .number t :: after) := by
      rw [argsOf_append, argsOf_cons, argsOf_cons]
      simp [Piece.args]
    rw [htake, hdrop, hargs]
    refine refused_of_not_asks (List.forall_mem_append.mpr ⟨hbefore,
      List.forall_mem_cons.mpr ⟨hplain, List.forall_mem_cons.mpr ⟨ht, hafter⟩⟩⟩)
      fun _ _ _ _ hasks => ?_
    have hthree := hasks.length_numbersOf
    simp only [numbersOf_append, numbersOf_number, numbersOf_option, List.length_append,
      List.length_cons] at htwo hthree
    omega

theorem Asks.refused_replaced (h : Asks ps first second format depth)
    (hps : ps = before ++ x :: after) (ht : ¬ Dashed t) (hinvalid : ¬ (x.withText t).Valid) :
    Refused (argsOf (before ++ x.withText t :: after)) := by
  subst hps
  obtain ⟨hbefore, hmore⟩ := List.forall_mem_append.mp h.plain
  have hplain : Plain (x.withText t).text := by
    rw [Piece.text_withText]
    exact .inl ht
  refine refused_of_not_asks (List.forall_mem_append.mpr
    ⟨hbefore, List.forall_mem_cons.mpr ⟨hplain, (List.forall_mem_cons.mp hmore).2⟩⟩)
    fun _ _ _ _ hasks => ?_
  exact hinvalid (hasks.valid (List.mem_append_right _ List.mem_cons_self))

/-- However two numbers and at most one value for each option are written behind `demo`, exactly
they are parsed, with text and a depth of one where no option says otherwise. An option given again
or a third number, anywhere in the list, a number left out, or a text without a dash that does not
belong where it stands, and the list is refused. -/
theorem command_line_round_trip :
    (∀ ps first second format depth, (∀ n ∈ depth, n < UInt64.size) →
      Written ps first second format depth → Asks ps first second format depth) ∧
    ∀ ps first second format depth, Asks ps first second format depth →
      parse ("demo" :: argsOf ps) = .ok ⟨first, second, format.getD .text, depth.getD 1⟩ ∧
      (∀ o attached s i, valuesOf o ps ≠ [] → ¬ Dashed s →
        Refused ((argsOf ps).take i ++ (Piece.option o attached s).args ++ (argsOf ps).drop i)) ∧
      (∀ before s after, ps = before ++ .number s :: after → Refused (argsOf (before ++ after))) ∧
      (∀ s v i, readValue s = .ok v →
        Refused ((argsOf ps).take i ++ [s] ++ (argsOf ps).drop i)) ∧
      ∀ before x after t, ps = before ++ x :: after → ¬ Dashed t → ¬ (x.withText t).Valid →
        Refused (argsOf (before ++ x.withText t :: after)) :=
  ⟨fun _ _ _ _ _ hdepth h => h.asks hdepth, fun _ _ _ _ _ h =>
    ⟨h.parse, fun _ attached _ i hgiven hs => h.refused_again hgiven hs attached i,
      fun _ _ _ hps => h.refused_removed hps, fun _ _ i hs => h.refused_third hs i,
      fun _ _ _ _ hps ht hinvalid => h.refused_replaced hps ht hinvalid⟩⟩

/-- Both ends of the range, and each way to give an option. -/
def extremes : List Piece :=
  [.option .depth true "18446744073709551615", .number "-9223372036854775808",
    .option .format false "json", .number "9223372036854775807"]

theorem round_trip_extremes :
    parse ["demo", "--queue-depth=18446744073709551615", "-9223372036854775808", "--format", "json",
        "9223372036854775807"] =
      .ok ⟨Int64.minValue, Int64.maxValue, .json, 18446744073709551615⟩ ∧
    Refused ["--queue-depth=18446744073709551615", "-9223372036854775808", "--format",
      "--format=text", "json", "9223372036854775807"] ∧
    Refused ["--queue-depth=18446744073709551615", "--format", "json", "9223372036854775807"] ∧
    Refused ["--queue-depth=18446744073709551615", "-9223372036854775808", "--format", "-1", "json",
      "9223372036854775807"] ∧
    Refused ["--queue-depth=18446744073709551616", "-9223372036854775808", "--format", "json",
      "9223372036854775807"] := by
  have hasks := command_line_round_trip.1 extremes Int64.minValue Int64.maxValue (some .json)
    (some 18446744073709551615) (by decide) ⟨by decide, by decide, by decide⟩
  obtain ⟨hparse, hagain, hremoved, hthird, hreplaced⟩ :=
    command_line_round_trip.2 _ _ _ _ _ hasks
  refine ⟨hparse, ?_, ?_, ?_, ?_⟩
  · exact hagain .format true "text" 3 (by decide) (by rw [Dashed]; decide)
  · exact hremoved [.option .depth true "18446744073709551615"] _ _ rfl
  · exact hthird "-1" (-1) 3 rfl
  · refine hreplaced [] _ _ "18446744073709551616" rfl (by rw [Dashed]; decide) ?_
    rintro ⟨n, hn⟩
    cases hn

end Custody.CommandLine
