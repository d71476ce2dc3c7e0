import Custody.Proofs.CommandLine.Spelling

/-!
# Numbers and options one by one

The arguments behind `demo` as numbers and options with their values. The parser looks at a text
only when the next number or option comes; what it ends with is what it would have if it looked at
each text at once.
-/

namespace Custody.CommandLine

/-- The two options. -/
inductive Opt where
  | format
  | depth
  deriving DecidableEq, Repr

namespace Opt

def word : Opt → String
  | format => "--format"
  | depth => "--queue-depth"

def name : Opt → List Char
  | format => "format".toList
  | depth => "queue-depth".toList

def place : Opt → Place
  | format => .format
  | depth => .depth

end Opt

/-- A number, or an option with its value. The value is attached behind an equals sign, or it is
an argument of its own. -/
inductive Piece where
  | number (s : String)
  | option (o : Opt) (attached : Bool) (s : String)
  deriving DecidableEq, Repr

namespace Piece

def text : Piece → String
  | number s => s
  | option _ _ s => s

def args : Piece → List String
  | number s => [s]
  | option o true s => [o.word ++ "=" ++ s]
  | option o false s => [o.word, s]

def number? : Piece → Option String
  | number s => some s
  | option _ _ _ => none

/-- The value that a piece gives to an option. -/
def value? (o : Opt) : Piece → Option String
  | number _ => none
  | option o' _ s => if o' = o then some s else none

/-- Looks at the text of a piece at once. -/
def store (e : Progress) : Piece → Except Refusal Progress
  | number s =>
    if e.numbers = 0 then { e with numbers := 1 }.store s .first
    else if e.numbers = 1 then { e with numbers := 2 }.store s .second
    else .error .unknownArgument
  | option o _ s => e.store s o.place

end Piece

/-- What the demo gets when nothing is pending any more. -/
def Progress.complete (e : Progress) : Except Refusal Demo :=
  match e.first, e.second with
  | some first, some second =>
    .ok { first, second, format := e.format.getD .text, depth := e.depth.getD defaultDepth }
  | _, _ => .error .missingArgument

def argsOf (ps : List Piece) : List String := ps.flatMap Piece.args

variable {p e e' : Progress} {r : Refusal} {s t : String} {o : Opt} {x : Piece} {ps : List Piece}
variable {place : Place}

/-! ## Options by their words -/

theorem Opt.ofName?_name (o : Opt) : Place.ofName? o.name = some o.place := by
  cases o <;> decide

theorem Opt.name_ne_help (o : Opt) : o.name ≠ "help".toList := by
  cases o <;> decide

theorem Opt.ofChars_word (o : Opt) : Token.ofChars o.word.toList = .long o.name none := by
  cases o <;> decide

theorem Opt.ofChars_attached (o : Opt) (s : String) :
    Token.ofChars (o.word ++ "=" ++ s).toList = .long o.name (some s.toList) := by
  rw [String.toList_append, String.toList_append]
  cases o <;> rfl

/-! ## Looking at a text -/

namespace Progress

theorem usage_store (p : Progress) (s : String) (place : Place) :
    FailsWith Refusal.Usage (p.store s place) := by
  cases place with
  | first => exact (usage_readValue s).bind fun _ _ => .ok _
  | second => exact (usage_readValue s).bind fun _ _ => .ok _
  | format =>
    rw [store]
    split
    · exact .error rfl
    · exact (usage_readFormat s).bind fun _ _ => .ok _
  | depth =>
    rw [store]
    split
    · exact .error rfl
    · exact (usage_readDepth s).bind fun _ _ => .ok _

theorem usage_settle (p : Progress) : FailsWith Refusal.Usage p.settle := by
  unfold settle
  split
  · exact .ok _
  · exact .error rfl
  · exact usage_store _ _ _

theorem bind_pure_eq_ok {α β : Type} {x : Except Refusal α} {g : α → β} {y : β} :
    (x >>= fun a => pure (g a)) = .ok y ↔ ∃ a, x = .ok a ∧ y = g a := by
  cases x with
  | error r =>
    constructor
    · rintro ⟨⟩
    · rintro ⟨a, h, _⟩
      cases h
  | ok a =>
    constructor
    · rintro ⟨⟩
      exact ⟨a, rfl, rfl⟩
    · rintro ⟨_, ⟨⟩, rfl⟩
      rfl

theorem store_first_ok :
    p.store s .first = .ok e ↔ ∃ v, readValue s = .ok v ∧ e = { p with first := some v } :=
  bind_pure_eq_ok

theorem store_second_ok :
    p.store s .second = .ok e ↔ ∃ v, readValue s = .ok v ∧ e = { p with second := some v } :=
  bind_pure_eq_ok

theorem store_format_ok :
    p.store s .format = .ok e ↔
      p.format = none ∧ ∃ f, readFormat s = .ok f ∧ e = { p with format := some f } := by
  rw [store]
  cases hformat : p.format with
  | none => simpa using bind_pure_eq_ok
  | some f => simp

theorem store_depth_ok :
    p.store s .depth = .ok e ↔
      p.depth = none ∧ ∃ n, readDepth s = .ok n ∧ e = { p with depth := some n } := by
  rw [store]
  cases hdepth : p.depth with
  | none => simpa using bind_pure_eq_ok
  | some n => simp

/-- A text goes to its place, and nothing else changes. -/
theorem store_ok (h : p.store s place = .ok e) :
    e.pending = p.pending ∧ e.escaped = p.escaped ∧ e.numbers = p.numbers := by
  cases place with
  | first =>
    obtain ⟨v, _, rfl⟩ := store_first_ok.mp h
    exact ⟨rfl, rfl, rfl⟩
  | second =>
    obtain ⟨v, _, rfl⟩ := store_second_ok.mp h
    exact ⟨rfl, rfl, rfl⟩
  | format =>
    obtain ⟨_, f, _, rfl⟩ := store_format_ok.mp h
    exact ⟨rfl, rfl, rfl⟩
  | depth =>
    obtain ⟨_, n, _, rfl⟩ := store_depth_ok.mp h
    exact ⟨rfl, rfl, rfl⟩

/-- The end of the options has not come, and no option waits for its value. -/
structure Ready (p : Progress) : Prop where
  unescaped : p.escaped = false
  pending : ∀ place, p.pending ≠ some (place, none)

/-- Nothing is pending any more. -/
theorem settle_ok (h : p.settle = .ok e) :
    e.pending = none ∧ e.escaped = p.escaped ∧ e.numbers = p.numbers := by
  unfold settle at h
  split at h
  · rename_i hnone
    cases h
    exact ⟨hnone, rfl, rfl⟩
  · cases h
  · exact store_ok h

/-- What has just been put off is what is looked at next. -/
theorem settle_pending (h : e.pending = none) :
    { e with pending := some (place, some s) }.settle = e.store s place := by
  obtain ⟨first, second, format, depth, pending, numbers, escaped⟩ := e
  cases h
  rfl

/-! ## One argument -/

theorem argument_number (h : p.Ready) (hs : Plain s) : p.argument s = p.number s := by
  have hword : p.word s = p.number s := by
    unfold word
    split
    · rename_i place hpending
      exact absurd hpending (h.pending place)
    · rfl
  rw [argument, if_neg (by simp [h.unescaped])]
  rcases hs with hdash | ⟨cs, hcs, hlooks⟩
  · rw [ofChars_of_not_dashed hdash]
    exact hword
  · rw [hcs, ofChars_negative hlooks]
    change p.short cs s = _
    rw [short]
    split
    · exact hword
    · rename_i hmany
      rw [if_neg (head_of_looksNumeric hlooks)]
      -- there are two numbers already
      have htwo : 2 ≤ p.numbers := Nat.le_of_not_lt fun hfew => hmany (by simp [hlooks, hfew])
      unfold number
      split
      · omega
      · omega
      · rfl

theorem argument_value (hpending : p.pending = some (place, none)) (hopen : p.escaped = false)
    (hs : Plain s) :
    p.argument s = .ok { p with pending := some (place, some s) } ∨
      Dashed s ∧ p.argument s = .error .unknownArgument := by
  have hword : p.word s = .ok { p with pending := some (place, some s) } := by
    rw [word, hpending]
  rw [argument, if_neg (by simp [hopen])]
  rcases hs with hdash | ⟨cs, hcs, hlooks⟩
  · rw [ofChars_of_not_dashed hdash]
    exact .inl hword
  · rw [hcs, ofChars_negative hlooks]
    change p.short cs s = _ ∨ _ ∧ p.short cs s = _
    rw [short]
    split
    · exact .inl hword
    · rw [if_neg (head_of_looksNumeric hlooks)]
      exact .inr ⟨by rw [Dashed, hcs]; rfl, rfl⟩

theorem argument_word (hopen : p.escaped = false) (o : Opt) :
    p.argument o.word =
      p.settle >>= fun e => .ok { e with pending := some (o.place, none) } := by
  rw [argument, if_neg (by simp [hopen]), Opt.ofChars_word]
  change p.long o.name none = _
  rw [long, if_neg (Opt.name_ne_help o), Opt.ofName?_name]
  rfl

theorem argument_attached (hopen : p.escaped = false) (o : Opt) (s : String) :
    p.argument (o.word ++ "=" ++ s) = p.settle >>= fun e => e.store s o.place := by
  rw [argument, if_neg (by simp [hopen]), Opt.ofChars_attached]
  change p.long o.name (some s.toList) = _
  rw [long, if_neg (Opt.name_ne_help o), Opt.ofName?_name]
  change (p.settle >>= fun e => e.store (String.ofList s.toList) o.place) = _
  rw [String.ofList_toList]

/-- Behind its last number an argument list has no place for another. -/
theorem number_eq (p : Progress) (s : String) :
    p.number s =
      if p.numbers = 0 then
        p.settle >>= fun e => .ok { e with pending := some (.first, some s), numbers := 1 }
      else if p.numbers = 1 then
        p.settle >>= fun e => .ok { e with pending := some (.second, some s), numbers := 2 }
      else .error .unknownArgument := by
  unfold number
  split
  · rename_i h
    rw [if_pos h]
    rfl
  · rename_i h
    rw [if_neg (by omega), if_pos h]
    rfl
  · rename_i h0 h1
    rw [if_neg h0, if_neg h1]

end Progress

/-! ## Looking later and looking at once -/

/-- The parser is where looking at once would be, or both have failed. -/
inductive Tracks : Except Refusal Progress → Except Refusal Progress → Prop
  | ready {q : Progress} (h : q.Ready) : Tracks (.ok q) q.settle
  | refused {r₁ r₂ : Refusal} (h : r₁.exitCode = 2) : Tracks (.error r₁) (.error r₂)

/-- No option has a value that begins with a dash. -/
theorem store_dashed (e : Progress) (o : Opt) (h : Dashed s) :
    ∃ r, e.store s o.place = .error r := by
  cases hstore : e.store s o.place with
  | error r => exact ⟨r, rfl⟩
  | ok e' =>
    cases o with
    | format =>
      obtain ⟨_, f, hread, _⟩ := Progress.store_format_ok.mp hstore
      exact absurd h (not_dashed_of_readFormat hread)
    | depth =>
      obtain ⟨_, n, hread, _⟩ := Progress.store_depth_ok.mp hstore
      exact absurd h (not_dashed_of_readDepth hread)

/-- What is stored at once leaves nothing to look at. -/
theorem tracks_store (e : Progress) (hpending : e.pending = none) (hopen : e.escaped = false)
    (s : String) (place : Place) : Tracks (e.store s place) (e.store s place) := by
  cases hstore : e.store s place with
  | error r => exact .refused (e.usage_store s place r hstore)
  | ok p =>
    obtain ⟨hp, hescaped, _⟩ := Progress.store_ok hstore
    have hready : p.Ready := ⟨hescaped.trans hopen, fun place h => by
      rw [hp, hpending] at h
      cases h⟩
    have hsettle : p.settle = .ok p := by rw [Progress.settle, hp, hpending]
    have htracks := Tracks.ready hready
    rwa [hsettle] at htracks

/-- What is put off is looked at next. -/
theorem tracks_pending (e : Progress) (hpending : e.pending = none) (hopen : e.escaped = false)
    (s : String) (place : Place) :
    Tracks (.ok { e with pending := some (place, some s) }) (e.store s place) := by
  rw [← Progress.settle_pending hpending]
  exact .ready ⟨hopen, fun place h => by cases h⟩

theorem tracks_number (h : p.Ready) (hs : Plain s) :
    Tracks (p.argument s) (p.settle >>= fun e => (Piece.number s).store e) := by
  rw [Progress.argument_number h hs, Progress.number_eq]
  cases hsettle : p.settle with
  | error r =>
    split
    · exact .refused (p.usage_settle r hsettle)
    · split
      · exact .refused (p.usage_settle r hsettle)
      · exact .refused rfl
  | ok e =>
    obtain ⟨hnone, hescaped, hnumbers⟩ := Progress.settle_ok hsettle
    have hopen : e.escaped = false := hescaped.trans h.unescaped
    rw [← hnumbers]
    change Tracks _ (Piece.store e (.number s))
    rw [Piece.store]
    split
    · exact tracks_pending { e with numbers := 1 } hnone hopen s .first
    · split
      · exact tracks_pending { e with numbers := 2 } hnone hopen s .second
      · exact .refused rfl

theorem tracks_attached (h : p.Ready) (o : Opt) (s : String) :
    Tracks (p.argument (o.word ++ "=" ++ s)) (p.settle >>= fun e => e.store s o.place) := by
  rw [Progress.argument_attached h.unescaped]
  cases hsettle : p.settle with
  | error r => exact .refused (p.usage_settle r hsettle)
  | ok e =>
    obtain ⟨hnone, hescaped, _⟩ := Progress.settle_ok hsettle
    exact tracks_store e hnone (hescaped.trans h.unescaped) s o.place

theorem tracks_apart (h : p.Ready) (o : Opt) (hs : Plain s) :
    Tracks (p.argument o.word >>= fun q => q.argument s)
      (p.settle >>= fun e => e.store s o.place) := by
  rw [Progress.argument_word h.unescaped]
  cases hsettle : p.settle with
  | error r => exact .refused (p.usage_settle r hsettle)
  | ok e =>
    obtain ⟨hnone, hescaped, _⟩ := Progress.settle_ok hsettle
    have hopen : e.escaped = false := hescaped.trans h.unescaped
    change Tracks (Progress.argument _ s) (e.store s o.place)
    rcases Progress.argument_value (p := { e with pending := some (o.place, none) }) rfl hopen hs
      with hvalue | ⟨hdash, hvalue⟩
    · rw [hvalue]
      exact tracks_pending e hnone hopen s o.place
    · obtain ⟨r, hr⟩ := store_dashed e o hdash
      rw [hvalue, hr]
      exact .refused rfl

/-- One number or option. -/
theorem tracks_piece (h : p.Ready) (hx : Plain x.text) :
    Tracks (x.args.foldlM Progress.argument p) (p.settle >>= fun e => x.store e) := by
  cases x with
  | number s =>
    simp only [Piece.args, List.foldlM_cons, List.foldlM_nil, bind_pure]
    exact tracks_number h hx
  | option o attached s =>
    cases attached with
    | true =>
      simp only [Piece.args, List.foldlM_cons, List.foldlM_nil, bind_pure]
      exact tracks_attached h o s
    | false =>
      simp only [Piece.args, List.foldlM_cons, List.foldlM_nil, bind_pure]
      exact tracks_apart h o hx

/-- Any number of them. -/
theorem tracks_pieces {a b : Except Refusal Progress} (h : Tracks a b)
    (hps : ∀ x ∈ ps, Plain x.text) :
    Tracks (a >>= (argsOf ps).foldlM Progress.argument) (b >>= ps.foldlM Piece.store) := by
  induction ps generalizing a b with
  | nil => simpa [argsOf] using h
  | cons x ps ih =>
    have hrest : ∀ y ∈ ps, Plain y.text := fun y hy => hps y (List.mem_cons_of_mem _ hy)
    cases h with
    | ready hready =>
      rename_i q
      have hnext := ih (tracks_piece hready (hps x List.mem_cons_self)) hrest
      rw [bind_assoc] at hnext
      change Tracks ((argsOf (x :: ps)).foldlM Progress.argument q) _
      rw [argsOf, List.flatMap_cons, List.foldlM_append]
      exact hnext
    | refused hr => exact .refused hr

theorem usage_complete (e : Progress) : FailsWith Refusal.Usage e.complete := by
  unfold Progress.complete
  split
  · exact .ok _
  · exact .error rfl

theorem usage_finish (p : Progress) : FailsWith Refusal.Usage p.finish :=
  p.usage_settle.bind fun e _ => usage_complete e

theorem tracks_argsOf (hps : ∀ x ∈ ps, Plain x.text) :
    Tracks ((argsOf ps).foldlM Progress.argument {}) (ps.foldlM Piece.store {}) :=
  tracks_pieces (.ready ⟨rfl, fun _ h => by cases h⟩) hps

theorem Tracks.usage {a b : Except Refusal Progress} (h : Tracks a b) :
    FailsWith Refusal.Usage (a >>= Progress.finish) := by
  cases h with
  | ready _ => exact usage_finish _
  | refused h => exact .error h

theorem Tracks.finish_eq_ok {a b : Except Refusal Progress} {d : Demo} (h : Tracks a b) :
    a >>= Progress.finish = .ok d ↔ b >>= Progress.complete = .ok d := by
  cases h with
  | ready _ => exact Iff.rfl
  | refused _ =>
    constructor
    · rintro ⟨⟩
    · rintro ⟨⟩

theorem usage_parseDemo (hps : ∀ x ∈ ps, Plain x.text) :
    FailsWith Refusal.Usage (parseDemo (argsOf ps)) := (tracks_argsOf hps).usage

/-- The parser ends with what it would have had if it looked at each text at once. -/
theorem parseDemo_eq_ok {d : Demo} (hps : ∀ x ∈ ps, Plain x.text) :
    parseDemo (argsOf ps) = .ok d ↔ ps.foldlM Piece.store {} >>= Progress.complete = .ok d :=
  (tracks_argsOf hps).finish_eq_ok

end Custody.CommandLine
