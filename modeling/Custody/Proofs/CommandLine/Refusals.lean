import Custody.Proofs.CommandLine.Pieces

/-!
# How arguments are refused

Help can be asked for in many places, the version only in place of a command. Everything else that
is not a command is wrong usage.
-/

namespace Custody.CommandLine

/-- Not a request for the version. -/
def Refusal.Inner (r : Refusal) : Prop := r ≠ .versionShown

instance (r : Refusal) : Decidable r.Inner := inferInstanceAs (Decidable (r ≠ .versionShown))

theorem Refusal.Usage.inner {r : Refusal} (h : r.Usage) : r.Inner := by
  rintro rfl
  cases h

variable {α : Type} {s : String} {rest : List String} {p : Progress}

theorem inner_usage {x : Except Refusal α} (h : FailsWith Refusal.Usage x) :
    FailsWith Refusal.Inner x := h.mono fun _ => Refusal.Usage.inner

namespace Progress

theorem inner_number (p : Progress) (s : String) : FailsWith Refusal.Inner (p.number s) := by
  have hsettle : FailsWith Refusal.Inner p.settle := inner_usage p.usage_settle
  rw [number_eq]
  split
  · exact hsettle.bind fun _ _ => .ok _
  · split
    · exact hsettle.bind fun _ _ => .ok _
    · exact .error (by decide)

theorem inner_word (p : Progress) (s : String) : FailsWith Refusal.Inner (p.word s) := by
  unfold word
  split
  · exact .ok _
  · exact p.inner_number s

theorem inner_long (p : Progress) (name : List Char) (attached : Option (List Char)) :
    FailsWith Refusal.Inner (p.long name attached) := by
  have hsettle : FailsWith Refusal.Inner p.settle := inner_usage p.usage_settle
  unfold long
  split
  · split
    · exact .error (by decide)
    · exact hsettle.bind fun _ _ => .error (by decide)
  · split
    · exact .error (by decide)
    · exact hsettle.bind fun e _ => inner_usage (e.usage_store _ _)
    · exact hsettle.bind fun _ _ => .ok _

theorem inner_short (p : Progress) (letters : List Char) (s : String) :
    FailsWith Refusal.Inner (p.short letters s) := by
  have hsettle : FailsWith Refusal.Inner p.settle := inner_usage p.usage_settle
  unfold short
  split
  · exact p.inner_word s
  · split
    · exact hsettle.bind fun _ _ => .error (by decide)
    · exact .error (by decide)

theorem inner_argument (p : Progress) (s : String) : FailsWith Refusal.Inner (p.argument s) := by
  unfold argument
  split
  · exact p.inner_number s
  · split
    · exact .ok _
    · exact p.inner_long _ _
    · exact p.inner_short _ s
    · exact p.inner_word s

end Progress

/-- Behind `demo` no version is asked for. -/
theorem inner_parseDemo (args : List String) : FailsWith Refusal.Inner (parseDemo args) := by
  have hfold : ∀ p : Progress, FailsWith Refusal.Inner (args.foldlM Progress.argument p) := by
    induction args with
    | nil => exact fun p => .ok p
    | cons s args ih =>
      intro p
      rw [List.foldlM_cons]
      exact (p.inner_argument s).bind fun q _ => ih q
  exact (hfold {}).bind fun p _ => inner_usage (usage_finish p)

theorem inner_askHelp (args : List String) : (askHelp args).Inner := by
  unfold askHelp
  split
  · decide
  · split <;> decide
  · decide

theorem inner_refuseEscaped (args : List String) : (refuseEscaped args).Inner := by
  unfold refuseEscaped
  split
  · decide
  · split <;> decide

/-! ## In place of a command -/

theorem eq_of_ofLong {cs name : List Char} (h : Token.ofLong cs = .long name none) : cs = name := by
  unfold Token.ofLong at h
  split at h
  · exact (Token.long.inj h).1
  · cases (Token.long.inj h).2

theorem eq_of_ofChars_long {cs name : List Char} (h : Token.ofChars cs = .long name none) :
    cs = '-' :: '-' :: name := by
  unfold Token.ofChars at h
  split at h
  · cases h
  · rw [eq_of_ofLong h]
  · cases h
  · cases h
  · cases h

theorem ofLong_ne_short (cs letters : List Char) : Token.ofLong cs ≠ .short letters := by
  unfold Token.ofLong
  split
  · rintro ⟨⟩
  · rintro ⟨⟩

theorem eq_of_ofChars_short {cs letters : List Char} (h : Token.ofChars cs = .short letters) :
    cs = '-' :: letters := by
  unfold Token.ofChars at h
  split at h
  · cases h
  · exact absurd h (ofLong_ne_short _ _)
  · cases h
  · cases h
    rfl
  · cases h

/-- The version is asked for in place of a command, by its long or its short option. -/
def AsksVersion : List String → Prop
  | [] => False
  | s :: _ => s = "--version" ∨ ∃ cs, s.toList = '-' :: 'V' :: cs

theorem refuseTop_eq_versionShown {t : Token} :
    refuseTop t = .versionShown ↔
      t = .long "version".toList none ∨ ∃ cs, t = .short ('V' :: cs) := by
  constructor
  · intro h
    unfold refuseTop at h
    split at h
    · cases h
    · split at h
      · cases h
      · split at h
        · rename_i hname
          exact .inl (by rw [hname])
        · cases h
    · split at h <;> cases h
    · split at h
      · cases h
      · split at h
        · rename_i hhead
          obtain ⟨cs, rfl⟩ := List.head?_eq_some_iff.mp hhead
          exact .inr ⟨cs, rfl⟩
        · cases h
    · cases h
  · rintro (rfl | ⟨cs, rfl⟩)
    · decide
    · rfl

theorem refuseTop_ofChars (s : String) :
    refuseTop (Token.ofChars s.toList) = .versionShown ↔ AsksVersion (s :: rest) := by
  rw [refuseTop_eq_versionShown, AsksVersion]
  constructor
  · rintro (h | ⟨cs, h⟩)
    · refine .inl (String.toList_inj.mp ?_)
      rw [eq_of_ofChars_long h]
      decide
    · exact .inr ⟨cs, eq_of_ofChars_short h⟩
  · rintro (rfl | ⟨cs, h⟩)
    · exact .inl (by decide)
    · refine .inr ⟨cs, ?_⟩
      rw [h]
      rfl

/-- When the version is shown. -/
theorem parse_eq_versionShown {args : List String} :
    parse args = .error .versionShown ↔ AsksVersion args := by
  cases args with
  | nil =>
    constructor
    · rintro ⟨⟩
    · rintro ⟨⟩
  | cons s rest =>
    rw [parse]
    split
    · rename_i hs
      subst hs
      constructor
      · exact fun h => absurd rfl (inner_parseDemo rest _ h)
      · rintro (h | ⟨cs, h⟩)
        · exact absurd h (by decide)
        · cases h
    · split
      · rename_i hs
        subst hs
        constructor
        · exact fun h => absurd (Except.error.inj h) (inner_askHelp rest)
        · rintro (h | ⟨cs, h⟩)
          · exact absurd h (by decide)
          · cases h
      · split
        · rename_i hescape
          constructor
          · exact fun h => absurd (Except.error.inj h) (inner_refuseEscaped rest)
          · intro h
            rw [← refuseTop_ofChars, hescape] at h
            cases h
        · rw [Except.error.injEq]
          exact refuseTop_ofChars s

end Custody.CommandLine
