import Custody.Proofs.CommandLine.Pieces

/-!
# What an argument list asks for

Two numbers, and at most one value for each option, in any order: that is all the parser accepts,
and it accepts nothing else. So what is wrong with an argument list can be read off its numbers and
values, wherever they stand.
-/

namespace Custody.CommandLine

variable {α : Type} {read : String → Except Refusal α} {ss rest : List String} {a b : Option α}
variable {s t : String} {o : Opt} {x : Piece} {ps done : List Piece} {e e' : Progress} {n m : Nat}
variable {v w : Option Value} {first second : Value} {format : Option Format} {depth : Option Nat}
variable {d : Demo}

def numbersOf (ps : List Piece) : List String := ps.filterMap Piece.number?

def valuesOf (o : Opt) (ps : List Piece) : List String := ps.filterMap (Piece.value? o)

/-- At most one text, and it is read. -/
inductive Once {α : Type} (read : String → Except Refusal α) : List String → Option α → Prop
  | absent : Once read [] none
  | given {s : String} {a : α} (h : read s = .ok a) : Once read [s] (some a)

/-- At most two numbers, and they are read. -/
inductive Numbered : List String → Nat → Option Value → Option Value → Prop
  | none : Numbered [] 0 none none
  | one {s : String} {v : Value} (h : readValue s = .ok v) : Numbered [s] 1 (some v) none
  | two {s t : String} {v w : Value} (hs : readValue s = .ok v) (ht : readValue t = .ok w) :
    Numbered [s, t] 2 (some v) (some w)

/-- A progress that holds what some numbers and options say. -/
structure Recorded (ps : List Piece) (e : Progress) : Prop where
  numbers : Numbered (numbersOf ps) e.numbers e.first e.second
  format : Once readFormat (valuesOf .format ps) e.format
  depth : Once readDepth (valuesOf .depth ps) e.depth

/-- Two numbers, and each option at most once, all with texts that can be read. -/
structure Asks (ps : List Piece) (first second : Value) (format : Option Format)
    (depth : Option Nat) : Prop where
  numbers : ∃ s t, numbersOf ps = [s, t] ∧ readValue s = .ok first ∧ readValue t = .ok second
  format : Once readFormat (valuesOf .format ps) format
  depth : Once readDepth (valuesOf .depth ps) depth

/-! ## One more text -/

theorem Once.snoc {f : α} (h : Once read ss none) (hs : read s = .ok f) :
    Once read (ss ++ [s]) (some f) := by
  cases h
  exact .given hs

theorem Once.next (h : Once read ss a) (hmore : Once read (ss ++ s :: rest) b) :
    a = none ∧ ∃ f, read s = .ok f := by
  cases h with
  | absent =>
    cases hmore with
    | given hs => exact ⟨rfl, _, hs⟩
  | given _ => cases hmore

theorem Once.unique (h : Once read ss a) (h' : Once read ss b) : a = b := by
  cases h with
  | absent =>
    cases h'
    rfl
  | given hs =>
    cases h' with
    | given hs' =>
      rw [hs] at hs'
      exact congrArg some (Except.ok.inj hs')

theorem Numbered.next {v' w' : Option Value} (h : Numbered ss n v w)
    (hmore : Numbered (ss ++ s :: rest) m v' w') : n < 2 ∧ ∃ f, readValue s = .ok f := by
  cases h with
  | none =>
    cases hmore with
    | one hs => exact ⟨by decide, _, hs⟩
    | two hs _ => exact ⟨by decide, _, hs⟩
  | one _ =>
    cases hmore with
    | two _ ht => exact ⟨by decide, _, ht⟩
  | two _ _ => cases hmore

/-! ## One more number or option -/

@[simp] theorem numbersOf_nil : numbersOf [] = [] := rfl

@[simp] theorem valuesOf_nil (o : Opt) : valuesOf o [] = [] := rfl

@[simp] theorem numbersOf_append (ps qs : List Piece) :
    numbersOf (ps ++ qs) = numbersOf ps ++ numbersOf qs := List.filterMap_append

@[simp] theorem valuesOf_append (o : Opt) (ps qs : List Piece) :
    valuesOf o (ps ++ qs) = valuesOf o ps ++ valuesOf o qs := List.filterMap_append

@[simp] theorem numbersOf_number (s : String) (ps : List Piece) :
    numbersOf (.number s :: ps) = s :: numbersOf ps := rfl

@[simp] theorem numbersOf_option (o : Opt) (attached : Bool) (s : String) (ps : List Piece) :
    numbersOf (.option o attached s :: ps) = numbersOf ps := rfl

@[simp] theorem valuesOf_number (o : Opt) (s : String) (ps : List Piece) :
    valuesOf o (.number s :: ps) = valuesOf o ps := rfl

@[simp] theorem valuesOf_option_self (o : Opt) (attached : Bool) (s : String) (ps : List Piece) :
    valuesOf o (.option o attached s :: ps) = s :: valuesOf o ps := by
  cases o <;> rfl

@[simp] theorem valuesOf_option_ne {o' : Opt} (h : o ≠ o') (attached : Bool) (s : String)
    (ps : List Piece) : valuesOf o' (.option o attached s :: ps) = valuesOf o' ps := by
  cases o <;> cases o' <;> first | rfl | exact absurd rfl h

theorem recorded_nil : Recorded [] {} := ⟨.none, .absent, .absent⟩

theorem Piece.store_number (e : Progress) (s : String) :
    (Piece.number s).store e =
      if e.numbers = 0 then { e with numbers := 1 }.store s .first
      else if e.numbers = 1 then { e with numbers := 2 }.store s .second
      else .error .unknownArgument := rfl

theorem Numbered.store (h : Numbered ss e.numbers e.first e.second)
    (hstore : (Piece.number s).store e = .ok e') :
    Numbered (ss ++ [s]) e'.numbers e'.first e'.second ∧ e'.format = e.format ∧
      e'.depth = e.depth := by
  obtain ⟨first, second, format, depth, pending, numbers, escaped⟩ := e
  rw [Piece.store_number] at hstore
  cases h with
  | none =>
    obtain ⟨v, hv, rfl⟩ := Progress.store_first_ok.mp hstore
    exact ⟨.one hv, rfl, rfl⟩
  | one hs =>
    obtain ⟨v, hv, rfl⟩ := Progress.store_second_ok.mp hstore
    exact ⟨.two hs hv, rfl, rfl⟩
  | two _ _ => cases hstore

/-- What is stored is recorded. -/
theorem Recorded.store (h : Recorded done e) (hstore : x.store e = .ok e') :
    Recorded (done ++ [x]) e' := by
  obtain ⟨hnumbers, hformat, hdepth⟩ := h
  cases x with
  | number s =>
    obtain ⟨hnext, hformat', hdepth'⟩ := hnumbers.store hstore
    rw [← hformat'] at hformat
    rw [← hdepth'] at hdepth
    exact ⟨by simpa using hnext, by simpa using hformat, by simpa using hdepth⟩
  | option o attached s =>
    cases o with
    | format =>
      obtain ⟨hnone, f, hf, rfl⟩ := Progress.store_format_ok.mp hstore
      rw [hnone] at hformat
      exact ⟨by simpa using hnumbers, by simpa using hformat.snoc hf, by simpa using hdepth⟩
    | depth =>
      obtain ⟨hnone, n, hn, rfl⟩ := Progress.store_depth_ok.mp hstore
      rw [hnone] at hdepth
      exact ⟨by simpa using hnumbers, by simpa using hformat, by simpa using hdepth.snoc hn⟩

/-- What can be recorded can be stored. -/
theorem Recorded.exists_store (h : Recorded done e) {e'' : Progress}
    (hall : Recorded (done ++ x :: ps) e'') : ∃ e', x.store e = .ok e' := by
  obtain ⟨hnumbers, hformat, hdepth⟩ := h
  obtain ⟨hnumbers', hformat', hdepth'⟩ := hall
  cases x with
  | number s =>
    simp only [numbersOf_append, numbersOf_number] at hnumbers'
    obtain ⟨hn, v, hv⟩ := hnumbers.next hnumbers'
    rw [Piece.store_number]
    split
    · exact ⟨_, Progress.store_first_ok.mpr ⟨v, hv, rfl⟩⟩
    · rw [if_pos (by omega)]
      exact ⟨_, Progress.store_second_ok.mpr ⟨v, hv, rfl⟩⟩
  | option o attached s =>
    cases o with
    | format =>
      simp only [valuesOf_append, valuesOf_option_self] at hformat'
      obtain ⟨hnone, f, hf⟩ := hformat.next hformat'
      exact ⟨_, Progress.store_format_ok.mpr ⟨hnone, f, hf, rfl⟩⟩
    | depth =>
      simp only [valuesOf_append, valuesOf_option_self] at hdepth'
      obtain ⟨hnone, n, hn⟩ := hdepth.next hdepth'
      exact ⟨_, Progress.store_depth_ok.mpr ⟨hnone, n, hn, rfl⟩⟩

/-! ## A whole list -/

theorem recorded_foldlM (h : Recorded done e) (hfold : ps.foldlM Piece.store e = .ok e') :
    Recorded (done ++ ps) e' := by
  induction ps generalizing done e with
  | nil =>
    cases hfold
    simpa using h
  | cons x ps ih =>
    rw [List.foldlM_cons] at hfold
    cases hstore : x.store e with
    | error r =>
      rw [hstore] at hfold
      cases hfold
    | ok e₁ =>
      rw [hstore] at hfold
      simpa using ih (h.store hstore) hfold

theorem exists_foldlM (h : Recorded done e) {e'' : Progress} (hall : Recorded (done ++ ps) e'') :
    ∃ e', ps.foldlM Piece.store e = .ok e' := by
  induction ps generalizing done e with
  | nil => exact ⟨e, rfl⟩
  | cons x ps ih =>
    obtain ⟨e₁, hstore⟩ := h.exists_store hall
    obtain ⟨e', hfold⟩ := ih (h.store hstore) (by simpa using hall)
    exact ⟨e', by rw [List.foldlM_cons, hstore]; exact hfold⟩

theorem Asks.recorded (h : Asks ps first second format depth) :
    Recorded ps { first := some first, second := some second, format, depth, numbers := 2 } := by
  obtain ⟨⟨s, t, hnumbers, hs, ht⟩, hformat, hdepth⟩ := h
  exact ⟨by rw [hnumbers]; exact .two hs ht, hformat, hdepth⟩

theorem Asks.complete (h : Asks ps first second format depth) (hrecorded : Recorded ps e) :
    e.complete = .ok ⟨first, second, format.getD .text, depth.getD defaultDepth⟩ := by
  obtain ⟨⟨s, t, hnumbers, hs, ht⟩, hformat, hdepth⟩ := h
  obtain ⟨first', second', format', depth', pending, numbers, escaped⟩ := e
  obtain ⟨hnumbers', hformat', hdepth'⟩ := hrecorded
  rw [hnumbers] at hnumbers'
  cases hnumbers' with
  | two hs' ht' =>
    rw [hs] at hs'
    rw [ht] at ht'
    cases hs'
    cases ht'
    rw [hformat.unique hformat', hdepth.unique hdepth']
    rfl

theorem Recorded.asks (h : Recorded ps e) (hcomplete : e.complete = .ok d) :
    ∃ format depth, Asks ps d.first d.second format depth := by
  obtain ⟨hnumbers, hformat, hdepth⟩ := h
  rw [Progress.complete] at hcomplete
  split at hcomplete
  · rename_i first second hfirst hsecond
    cases hcomplete
    rw [hfirst, hsecond] at hnumbers
    generalize e.numbers = n at hnumbers
    generalize hss : numbersOf ps = ss at hnumbers
    refine ⟨e.format, e.depth, ?_, hformat, hdepth⟩
    cases hnumbers with
    | two hs ht => exact ⟨_, _, hss, hs, ht⟩
  · cases hcomplete

/-- An argument list is accepted exactly when it asks for something, and this is what comes out. -/
theorem parseDemo_eq_ok_iff (hps : ∀ x ∈ ps, Plain x.text) :
    parseDemo (argsOf ps) = .ok d ↔ ∃ first second format depth,
      Asks ps first second format depth ∧
        d = ⟨first, second, format.getD .text, depth.getD defaultDepth⟩ := by
  rw [parseDemo_eq_ok hps]
  constructor
  · intro h
    cases hfold : ps.foldlM Piece.store {} with
    | error r =>
      rw [hfold] at h
      cases h
    | ok e =>
      rw [hfold] at h
      have hrecorded : Recorded ps e := recorded_foldlM recorded_nil hfold
      obtain ⟨format, depth, hasks⟩ := hrecorded.asks h
      have hcomplete := hasks.complete hrecorded
      exact ⟨_, _, format, depth, hasks, Except.ok.inj (h.symm.trans hcomplete)⟩
  · rintro ⟨first, second, format, depth, hasks, rfl⟩
    obtain ⟨e, hfold⟩ := exists_foldlM recorded_nil hasks.recorded
    rw [hfold]
    exact hasks.complete (recorded_foldlM recorded_nil hfold)

end Custody.CommandLine
