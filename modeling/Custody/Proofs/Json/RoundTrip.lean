import Custody.Proofs.Json.Scan

/-!
# Reading what was written

The text of a value is read back as that value, so two values never have the same text. And a text
is one line: it has no character below U+0020.
-/

namespace Custody.Json

/-- What holds of a list or a record when it holds of all that is in it holds of every value. -/
@[elab_as_elim]
theorem induction {P : Json → Prop} (bool : ∀ b, P (bool b)) (int : ∀ i, P (int i))
    (text : ∀ s, P (text s)) (list : ∀ items, (∀ v ∈ items, P v) → P (list items))
    (record : ∀ members, (∀ m ∈ members, P m.2) → P (record members)) (v : Json) : P v :=
  @Json.rec P (fun items => ∀ v ∈ items, P v) (fun members => ∀ m ∈ members, P m.2)
    (fun m => P m.2) bool int text list record (by simp)
    (fun _ _ hv hrest => List.forall_mem_cons.mpr ⟨hv, hrest⟩) (by simp)
    (fun _ _ hm hrest => List.forall_mem_cons.mpr ⟨hm, hrest⟩) (fun _ _ hv => hv) v

variable {v w : Json} {c : Char} {cs rest : List Char} {fuel : Nat} {items : List Json}
  {members : List (String × Json)}

/-! ## How a text begins -/

theorem not_blank_of_digit (h : c.isDigit = true) : isBlank c = false := by
  simp only [isBlank, Bool.or_eq_false_iff, beq_eq_false_iff_ne]
  refine ⟨⟨⟨?_, ?_⟩, ?_⟩, ?_⟩
  all_goals
    rintro rfl
    cases h

theorem decimal_cons (i : Int) :
    ∃ c cs, Text.decimal i = c :: cs ∧ (c = '-' ∨ c.isDigit = true) := by
  cases i with
  | ofNat n =>
    obtain ⟨c, cs, hcs⟩ := List.exists_cons_of_ne_nil (Text.digits_ne_nil n)
    exact ⟨c, cs, hcs, Or.inr (Text.isDigit_of_mem_digits (n := n) (hcs ▸ List.mem_cons_self))⟩
  | negSucc n => exact ⟨'-', _, rfl, Or.inl rfl⟩

theorem write_cons (v : Json) : ∃ c cs, v.write = c :: cs ∧ isBlank c = false ∧ c ≠ ']' := by
  cases v with
  | bool b => cases b <;> exact ⟨_, _, rfl, rfl, by decide⟩
  | int i =>
    obtain ⟨c, cs, hcs, rfl | hdigit⟩ := decimal_cons i
    · exact ⟨'-', cs, hcs, rfl, by decide⟩
    · refine ⟨c, cs, hcs, not_blank_of_digit hdigit, ?_⟩
      rintro rfl
      cases hdigit
  | text s => exact ⟨'"', _, rfl, rfl, by decide⟩
  | list items => exact ⟨'[', _, rfl, rfl, by decide⟩
  | record members => exact ⟨'\x7b', _, rfl, rfl, by decide⟩

theorem skip_cons (h : isBlank c = false) (cs : List Char) : skip (c :: cs) = c :: cs := by
  rw [skip, List.dropWhile_cons_of_neg (by simp [h])]

theorem skip_write (v : Json) (rest : List Char) : skip (v.write ++ rest) = v.write ++ rest := by
  obtain ⟨c, cs, hcs, hblank, _⟩ := write_cons v
  rw [hcs, List.cons_append, skip_cons hblank]

theorem length_write_pos (v : Json) : 0 < v.write.length := by
  obtain ⟨c, cs, hcs, _⟩ := write_cons v
  rw [hcs]
  exact Nat.succ_pos _

theorem halts_cons (h : c.isDigit = false) (cs : List Char) : Halts (c :: cs) := by
  intro d hd
  obtain rfl := Option.some.inj hd
  exact h

/-! ## Reading -/

/-- With enough fuel the value is read back, whatever follows it. -/
def ReadsBack (v : Json) : Prop := ∀ fuel rest, v.write.length ≤ fuel → Halts rest →
  readValue fuel (v.write ++ rest) = some (v, rest)

/-- The text is not empty, so there is fuel. -/
theorem readsBack_of_succ (h : ∀ fuel rest, v.write.length ≤ fuel + 1 → Halts rest →
    readValue (fuel + 1) (v.write ++ rest) = some (v, rest)) : ReadsBack v := by
  intro fuel rest hfuel halts
  have hpos := length_write_pos v
  obtain _ | fuel := fuel
  · omega
  · exact h fuel rest hfuel halts

theorem readsBack_bool (b : Bool) : ReadsBack (bool b) := by
  refine readsBack_of_succ fun fuel rest _ _ => ?_
  cases b <;> rfl

theorem readsBack_int (i : Int) : ReadsBack (int i) := by
  refine readsBack_of_succ fun fuel rest _ halts => ?_
  have hread := readNumber_decimal i halts
  obtain ⟨c, cs, hcs, hhead⟩ := decimal_cons i
  have hnumber : ∀ {d ds}, c :: (cs ++ rest) = d :: ds → d = '-' ∨ d.isDigit = true :=
    fun h => (List.cons.inj h).1 ▸ hhead
  rw [readValue, skip_write, write]
  rw [hcs, List.cons_append] at hread ⊢
  -- nothing else begins like a number
  split
  · exact absurd (hnumber ‹_›) (by decide)
  · exact absurd (hnumber ‹_›) (by decide)
  · exact absurd (hnumber ‹_›) (by decide)
  · exact absurd (hnumber ‹_›) (by decide)
  · exact absurd (hnumber ‹_›) (by decide)
  · rw [hread]
    rfl

theorem readText_written (s : String) (rest : List Char) :
    writeText s ++ rest = '"' :: (s.toList.flatMap writeChar ++ '"' :: rest) := by
  simp [writeText]

theorem readsBack_text (s : String) : ReadsBack (text s) := by
  refine readsBack_of_succ fun fuel rest _ _ => ?_
  rw [readValue, skip_write, write, readText_written]
  simp only [readText_writeText, Option.bind_eq_bind, Option.bind_some, String.ofList_toList]
  rfl

theorem writeItems_cons (v w : Json) (items : List Json) :
    writeItems (v :: w :: items) = v.write ++ ',' :: writeItems (w :: items) := rfl

theorem readItems_write (hitems : items ≠ []) (hall : ∀ v ∈ items, ReadsBack v)
    (hfuel : (writeItems items).length < fuel) :
    readItems fuel (writeItems items ++ ']' :: rest) = some (items, rest) := by
  induction items generalizing fuel with
  | nil => exact absurd rfl hitems
  | cons v items ih =>
    obtain ⟨hv, hrest⟩ := List.forall_mem_cons.mp hall
    obtain _ | fuel := fuel
    · cases hfuel
    cases items with
    | nil =>
      have hread := hv fuel (']' :: rest) (Nat.le_of_lt_succ hfuel) (halts_cons rfl rest)
      rw [readItems, writeItems, hread]
      rfl
    | cons w items =>
      rw [writeItems_cons, List.length_append, List.length_cons] at hfuel
      have hread := hv fuel (',' :: (writeItems (w :: items) ++ ']' :: rest)) (by omega)
        (halts_cons rfl _)
      have hlater : readItems fuel (writeItems (w :: items) ++ ']' :: rest) =
          some (w :: items, rest) := ih (List.cons_ne_nil w items) hrest (by omega)
      rw [readItems, writeItems_cons, List.append_assoc, List.cons_append, hread]
      simp only [Option.bind_eq_bind, Option.bind_some, skip_cons (c := ',') rfl, hlater]
      rfl

/-- A list that is not empty does not begin with its closing bracket. -/
theorem skip_writeItems (v : Json) (items : List Json) (rest : List Char) :
    ∃ c cs, skip (writeItems (v :: items) ++ rest) = c :: cs ∧ c ≠ ']' := by
  obtain ⟨c, cs, hcs, hblank, hclose⟩ := write_cons v
  cases items with
  | nil =>
    refine ⟨c, cs ++ rest, ?_, hclose⟩
    rw [writeItems, hcs, List.cons_append, skip_cons hblank]
  | cons w items =>
    refine ⟨c, cs ++ ',' :: writeItems (w :: items) ++ rest, ?_, hclose⟩
    rw [writeItems_cons, hcs, List.cons_append, List.cons_append, skip_cons hblank]

theorem readsBack_list (hall : ∀ v ∈ items, ReadsBack v) : ReadsBack (list items) := by
  refine readsBack_of_succ fun fuel rest hfuel _ => ?_
  cases items with
  | nil => rfl
  | cons v items =>
    have hlength : (writeItems (v :: items)).length < fuel := by
      simp only [write, List.length_cons, List.length_append, List.length_nil] at hfuel
      omega
    have hread : readItems fuel (writeItems (v :: items) ++ ']' :: rest) =
        some (v :: items, rest) := readItems_write (List.cons_ne_nil v items) hall hlength
    have htext : (list (v :: items)).write ++ rest =
        '[' :: (writeItems (v :: items) ++ ']' :: rest) := by
      simp [write]
    obtain ⟨c, cs, hskip, hclose⟩ := skip_writeItems v items (']' :: rest)
    rw [readValue, skip_write, htext]
    simp only [hread]
    split
    · rename_i h
      rw [hskip] at h
      exact absurd (List.cons.inj h).1 hclose
    · rfl

theorem writeMembers_cons (name : String) (v : Json) (m : String × Json)
    (members : List (String × Json)) : writeMembers ((name, v) :: m :: members) =
      writeText name ++ ':' :: (v.write ++ ',' :: writeMembers (m :: members)) := rfl

theorem writeMembers_quote (m : String × Json) (members : List (String × Json)) :
    ∃ cs, writeMembers (m :: members) = '"' :: cs := by
  obtain ⟨name, v⟩ := m
  cases members with
  | nil => exact ⟨_, rfl⟩
  | cons m members => exact ⟨_, rfl⟩

theorem readMembers_write (hmembers : members ≠ []) (hall : ∀ m ∈ members, ReadsBack m.2)
    (hfuel : (writeMembers members).length < fuel) :
    readMembers fuel (writeMembers members ++ '\x7d' :: rest) = some (members, rest) := by
  induction members generalizing fuel with
  | nil => exact absurd rfl hmembers
  | cons m members ih =>
    obtain ⟨name, v⟩ := m
    obtain ⟨hv, hrest⟩ := List.forall_mem_cons.mp hall
    replace hv : ReadsBack v := hv
    obtain _ | fuel := fuel
    · cases hfuel
    cases members with
    | nil =>
      rw [writeMembers, List.length_append, List.length_cons] at hfuel
      have hread := hv fuel ('\x7d' :: rest) (by omega) (halts_cons rfl rest)
      rw [readMembers, writeMembers, List.append_assoc, List.cons_append, readText_written,
        skip_cons (c := '"') rfl]
      simp only [readText_writeText, Option.bind_eq_bind, Option.bind_some, String.ofList_toList,
        skip_cons (c := ':') rfl, hread, skip_cons (c := '\x7d') rfl]
      rfl
    | cons m members =>
      simp only [writeMembers_cons, List.length_append, List.length_cons] at hfuel
      have hread := hv fuel (',' :: (writeMembers (m :: members) ++ '\x7d' :: rest)) (by omega)
        (halts_cons rfl _)
      have hlater : readMembers fuel (writeMembers (m :: members) ++ '\x7d' :: rest) =
          some (m :: members, rest) := ih (List.cons_ne_nil m members) hrest (by omega)
      rw [readMembers, writeMembers_cons, List.append_assoc, List.cons_append, readText_written,
        skip_cons (c := '"') rfl, List.append_assoc, List.cons_append]
      simp only [readText_writeText, Option.bind_eq_bind, Option.bind_some, String.ofList_toList,
        skip_cons (c := ':') rfl, hread, skip_cons (c := ',') rfl, hlater]
      rfl

theorem readsBack_record (hall : ∀ m ∈ members, ReadsBack m.2) : ReadsBack (record members) := by
  refine readsBack_of_succ fun fuel rest hfuel _ => ?_
  cases members with
  | nil => rfl
  | cons m members =>
    have hlength : (writeMembers (m :: members)).length < fuel := by
      simp only [write, List.length_cons, List.length_append, List.length_nil] at hfuel
      omega
    have hread : readMembers fuel (writeMembers (m :: members) ++ '\x7d' :: rest) =
        some (m :: members, rest) := readMembers_write (List.cons_ne_nil m members) hall hlength
    have htext : (record (m :: members)).write ++ rest =
        '\x7b' :: (writeMembers (m :: members) ++ '\x7d' :: rest) := by
      simp [write]
    obtain ⟨cs, hquote⟩ := writeMembers_quote m members
    rw [readValue, skip_write, htext]
    simp only [hread]
    split
    · rename_i h
      rw [hquote, List.cons_append, skip_cons (c := '"') rfl] at h
      cases h
    · rfl

theorem readsBack (v : Json) : ReadsBack v := by
  induction v using induction with
  | bool b => exact readsBack_bool b
  | int i => exact readsBack_int i
  | text s => exact readsBack_text s
  | list items ih => exact readsBack_list ih
  | record members ih => exact readsBack_record ih

/-- A text that was written is read back. -/
theorem parse?_render (v : Json) : parse? v.render = some v := by
  have hread := readsBack v (v.write.length + 1) [] (Nat.le_succ _) nofun
  rw [List.append_nil] at hread
  rw [parse?, render, String.toList_ofList]
  simp only [hread, Option.bind_eq_bind, Option.bind_some]
  rfl

theorem render_injective : Function.Injective render := by
  intro v w h
  have hparse := congrArg parse? h
  rw [parse?_render, parse?_render] at hparse
  exact Option.some.inj hparse

/-! ## One line -/

/-- No character needs an escape where JSON allows none. -/
def Plain (cs : List Char) : Prop := ∀ c ∈ cs, 0x20 ≤ c.toNat

theorem plain_append {ds : List Char} (hcs : Plain cs) (hds : Plain ds) : Plain (cs ++ ds) :=
  List.forall_mem_append.mpr ⟨hcs, hds⟩

theorem plain_cons (hc : 0x20 ≤ c.toNat) (hcs : Plain cs) : Plain (c :: cs) :=
  List.forall_mem_cons.mpr ⟨hc, hcs⟩

theorem plain_digits (n : Nat) : Plain (Text.digits n) := by
  intro c hc
  have hdigit := Text.isDigit_of_mem_digits hc
  simp only [Char.isDigit, Bool.and_eq_true, decide_eq_true_eq] at hdigit
  have hzero : '0'.val.toNat ≤ c.val.toNat := UInt32.le_iff_toNat_le.mp hdigit.1
  exact Nat.le_trans (by decide) hzero

theorem plain_decimal (i : Int) : Plain (Text.decimal i) := by
  cases i with
  | ofNat n => exact plain_digits n
  | negSucc n => exact plain_cons (by decide) (plain_digits (n + 1))

theorem plain_digitChar {n : Nat} (h : n < 16) : 0x20 ≤ n.digitChar.toNat := by
  revert n
  decide

theorem plain_writeChar (c : Char) : Plain (writeChar c) := by
  unfold writeChar
  split
  · rename_i l hl
    refine plain_cons (by decide) (plain_cons ?_ nofun)
    unfold letter? at hl
    split at hl
    all_goals first
      | cases hl
        decide
      | cases hl
  · split
    · rename_i hlow
      exact plain_cons (by decide) (plain_cons (by decide) (plain_cons (by decide)
        (plain_cons (by decide) (plain_cons (plain_digitChar (by omega))
          (plain_cons (plain_digitChar (by omega)) nofun)))))
    · rename_i hhigh
      exact plain_cons (Nat.not_lt.mp hhigh) nofun

theorem plain_writeText (s : String) : Plain (writeText s) := by
  refine plain_cons (by decide) (plain_append ?_ (plain_cons (by decide) nofun))
  intro c hc
  obtain ⟨d, _, hd⟩ := List.mem_flatMap.mp hc
  exact plain_writeChar d c hd

theorem plain_writeItems (hall : ∀ v ∈ items, Plain v.write) : Plain (writeItems items) := by
  induction items with
  | nil => exact nofun
  | cons v items ih =>
    obtain ⟨hv, hrest⟩ := List.forall_mem_cons.mp hall
    cases items with
    | nil => exact hv
    | cons w items => exact plain_append hv (plain_cons (by decide) (ih hrest))

theorem plain_writeMembers (hall : ∀ m ∈ members, Plain m.2.write) :
    Plain (writeMembers members) := by
  induction members with
  | nil => exact nofun
  | cons m members ih =>
    obtain ⟨name, v⟩ := m
    obtain ⟨hv, hrest⟩ := List.forall_mem_cons.mp hall
    cases members with
    | nil => exact plain_append (plain_writeText name) (plain_cons (by decide) hv)
    | cons m members =>
      exact plain_append (plain_writeText name) (plain_cons (by decide)
        (plain_append hv (plain_cons (by decide) (ih hrest))))

/-- The text of a value is one line. -/
theorem plain_render (v : Json) : Plain v.render.toList := by
  rw [render, String.toList_ofList]
  induction v using induction with
  | bool b => cases b <;> simp [write, Plain]
  | int i => exact plain_decimal i
  | text s => exact plain_writeText s
  | list items ih =>
    exact plain_cons (by decide) (plain_append (plain_writeItems ih) (plain_cons (by decide) nofun))
  | record members ih =>
    exact plain_cons (by decide)
      (plain_append (plain_writeMembers ih) (plain_cons (by decide) nofun))

end Custody.Json
