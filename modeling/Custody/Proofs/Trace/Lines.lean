import Custody.Proofs.Text.Quoted
import Custody.Trace

/-!
# Trace lines can be told apart

The client's name and the key stand in a line as they are, so a line can only be read by someone who
knows them. For such a reader the line's text says which step it is and what that step shows, and
whatever the error text is, it stays between its quotes.
-/

namespace Custody.Trace

open Text (quoted inner hasBareQuote isControl readQuoted)

/-- What the line of a step shows besides the key. -/
inductive Content where
  | get (v : Value) (ok : Bool) (err : String)
  | put (v : Value) (ok : Bool) (err : String)
  | parked
  | resumed (v : Value) (ok : Bool) (err : String)
  deriving DecidableEq, Repr

namespace Content

def outcome (ok : Bool) : List Char := "ok=".toList ++ (toString ok).toList ++ " err=".toList

def fetched (v : Value) (ok : Bool) : List Char :=
  "value=".toList ++ (Text.decimal v.toInt ++ ' ' :: outcome ok)

/-- What stands before the key. -/
def word : Content → List Char
  | get .. => "get ".toList
  | put .. => "put ".toList
  | parked => "get ".toList
  | resumed .. => "pending get ".toList

/-- What stands behind the key, up to the error text. -/
def lead : Content → List Char
  | get v ok _ => " -> ".toList ++ fetched v ok
  | put v ok _ => '=' :: (Text.decimal v.toInt ++ (" -> ".toList ++ outcome ok))
  | parked => " (pending)".toList
  | resumed v ok _ => " reply -> ".toList ++ fetched v ok

def err? : Content → Option String
  | get _ _ err => some err
  | put _ _ err => some err
  | parked => none
  | resumed _ _ err => some err

def writeErr (a : Content) : List Char := (a.err?.map quoted).getD []

variable (v : Value) (ok : Bool) (e : String)

@[simp] theorem word_get : (get v ok e).word = "get ".toList := rfl

@[simp] theorem word_put : (put v ok e).word = "put ".toList := rfl

@[simp] theorem word_parked : parked.word = "get ".toList := rfl

@[simp] theorem word_resumed : (resumed v ok e).word = "pending get ".toList := rfl

@[simp] theorem lead_get : (get v ok e).lead = " -> ".toList ++ fetched v ok := rfl

@[simp] theorem lead_put : (put v ok e).lead =
    '=' :: (Text.decimal v.toInt ++ (" -> ".toList ++ outcome ok)) := rfl

@[simp] theorem lead_parked : parked.lead = " (pending)".toList := rfl

@[simp] theorem lead_resumed : (resumed v ok e).lead = " reply -> ".toList ++ fetched v ok := rfl

end Content

namespace Step

def content : Step → Content
  | get _ r => .get r.value r.ok r.errText
  | put _ v r => .put v r.ok r.errText
  | parked _ => .parked
  | resumed _ r => .resumed r.value r.ok r.errText

/-- The same step, had its reply carried another error text or none. -/
def withErr (err : Option String) : Step → Step
  | get k r => get k { r with err }
  | put k v r => put k v { r with err }
  | parked k => parked k
  | resumed k r => resumed k { r with err }

end Step

variable {v v' : Value} {ok ok' : Bool} {e e' : String} {l l' : Line}
variable {rest rest' : List Char}

/-- A line has no more than the client, the key and the content. -/
theorem Step.write_eq (s : Step) :
    s.write = s.content.word ++ (s.key.toList ++ (s.content.lead ++ s.content.writeErr)) := by
  cases s with
  | get k r =>
    change "get ".toList ++ k.toList ++ " -> ".toList ++ ("value=".toList ++
      Text.decimal r.value.toInt ++ ' ' :: (Content.outcome r.ok ++ quoted r.errText)) =
      "get ".toList ++ (k.toList ++ (" -> ".toList ++ Content.fetched r.value r.ok ++
        quoted r.errText))
    simp only [Content.fetched, List.append_assoc, List.cons_append]
  | put k v r =>
    change "put ".toList ++ k.toList ++ '=' :: Text.decimal v.toInt ++ " -> ".toList ++
      (Content.outcome r.ok ++ quoted r.errText) =
      "put ".toList ++ (k.toList ++ ('=' :: (Text.decimal v.toInt ++ (" -> ".toList ++
        Content.outcome r.ok)) ++ quoted r.errText))
    simp only [List.append_assoc, List.cons_append]
  | parked k =>
    change "get ".toList ++ k.toList ++ " (pending)".toList =
      "get ".toList ++ (k.toList ++ (" (pending)".toList ++ []))
    simp only [List.append_assoc, List.append_nil]
  | resumed k r =>
    change "pending get ".toList ++ k.toList ++ " reply -> ".toList ++ ("value=".toList ++
      Text.decimal r.value.toInt ++ ' ' :: (Content.outcome r.ok ++ quoted r.errText)) =
      "pending get ".toList ++ (k.toList ++ (" reply -> ".toList ++
        Content.fetched r.value r.ok ++ quoted r.errText))
    simp only [Content.fetched, List.append_assoc, List.cons_append]

theorem Line.toList_text (l : Line) :
    l.text.toList = '[' :: l.client.toList ++ "] ".toList ++ (l.step.content.word ++
      (l.step.key.toList ++ (l.step.content.lead ++ l.step.content.writeErr))) := by
  rw [Line.text, String.toList_ofList, Step.write_eq]

/-! ## What stands behind the arrow -/

theorem decimal_append_inj {i j : Int} (halts : Json.Halts rest) (halts' : Json.Halts rest')
    (h : Text.decimal i ++ rest = Text.decimal j ++ rest') : i = j ∧ rest = rest' := by
  have hread := congrArg Json.readNumber h
  rw [Json.readNumber_decimal i halts, Json.readNumber_decimal j halts'] at hread
  exact Prod.mk.inj (Option.some.inj hread)

theorem halts_space (rest : List Char) : Json.Halts (' ' :: rest) := by
  intro c hc
  cases hc
  rfl

theorem halts_arrow (rest : List Char) : Json.Halts (" -> ".toList ++ rest) := halts_space _

theorem outcome_append_inj
    (h : Content.outcome ok ++ quoted e = Content.outcome ok' ++ quoted e') :
    ok = ok' ∧ e = e' := by
  have htrue : toString true = "true" := rfl
  have hfalse : toString false = "false" := rfl
  have hok : ok = ok' := by
    revert h
    cases ok <;> cases ok' <;> simp [Content.outcome, htrue, hfalse]
  subst hok
  rw [List.append_cancel_left_eq] at h
  exact ⟨rfl, (Text.quoted_append_inj (congrArg (· ++ []) h)).1⟩

theorem fetched_append_inj
    (h : Content.fetched v ok ++ quoted e = Content.fetched v' ok' ++ quoted e') :
    v = v' ∧ ok = ok' ∧ e = e' := by
  simp only [Content.fetched, List.append_assoc, List.append_cancel_left_eq, List.cons_append] at h
  obtain ⟨hvalue, hrest⟩ := decimal_append_inj (halts_space _) (halts_space _) h
  exact ⟨Int64.toInt_inj.mp hvalue, outcome_append_inj (List.cons.inj hrest).2⟩

/-! ## The four layouts -/

open Content in
/-- Behind one and the same key, two contents are written alike only if they are the same. -/
theorem content_inj {a b : Content} (k : List Char)
    (h : a.word ++ (k ++ (a.lead ++ a.writeErr)) = b.word ++ (k ++ (b.lead ++ b.writeErr))) :
    a = b := by
  cases a <;> cases b
  case get.get v ok e v' ok' e' =>
    have htail := List.append_cancel_left (List.append_cancel_left h)
    rw [lead_get, lead_get, List.append_assoc, List.append_assoc] at htail
    obtain ⟨rfl, rfl, rfl⟩ := fetched_append_inj (List.append_cancel_left htail)
    rfl
  case put.put v ok e v' ok' e' =>
    have htail := List.append_cancel_left (List.append_cancel_left h)
    simp only [lead_put, List.append_assoc, List.cons_append, List.cons.injEq, true_and] at htail
    obtain ⟨hvalue, hrest⟩ := decimal_append_inj (halts_arrow _) (halts_arrow _) htail
    obtain ⟨rfl, rfl⟩ := outcome_append_inj (List.append_cancel_left hrest)
    rw [Int64.toInt_inj.mp hvalue]
  case parked.parked => rfl
  case resumed.resumed v ok e v' ok' e' =>
    have htail := List.append_cancel_left (List.append_cancel_left h)
    rw [lead_resumed, lead_resumed, List.append_assoc, List.append_assoc] at htail
    obtain ⟨rfl, rfl, rfl⟩ := fetched_append_inj (List.append_cancel_left htail)
    rfl
  -- the first letters differ, or else what stands right behind the key
  all_goals simp at h

theorem text_eq_iff (hclient : l.client = l'.client) (hkey : l.step.key = l'.step.key) :
    l.text = l'.text ↔ l.step.content = l'.step.content := by
  rw [← String.toList_inj, Line.toList_text, Line.toList_text, hclient, hkey,
    List.append_cancel_left_eq]
  constructor
  · exact content_inj _
  · intro h
    rw [h]

/-! ## The error text -/

/-- The error text is the end of the line, quoted, and nothing before it depends on it. -/
theorem exists_text_withErr (h : l.step.content.err? = some e) :
    ∃ front, l.text.toList = front ++ quoted e ∧
      ∀ err, ({ l with step := l.step.withErr err } : Line).text.toList =
        front ++ quoted (err.getD "") := by
  obtain ⟨client, step⟩ := l
  simp only [Line.toList_text, ← List.append_assoc]
  cases step with
  | get k r =>
    cases h
    exact ⟨_, rfl, fun _ => rfl⟩
  | put k v r =>
    cases h
    exact ⟨_, rfl, fun _ => rfl⟩
  | parked k => cases h
  | resumed k r =>
    cases h
    exact ⟨_, rfl, fun _ => rfl⟩

theorem readQuoted_eq_some_iff {t : String} :
    readQuoted (quoted e ++ rest) = some (t, rest') ↔ t = e ∧ rest' = rest := by
  rw [Text.readQuoted_quoted, Option.some.injEq, Prod.mk.injEq, eq_comm, eq_comm (a := rest)]

/-- For a given client and key, the text of a line determines the kind of the step and all that this
kind shows, and nothing else does it show. Whatever error text a step carries, it is the end of its
line, behind characters that do not depend on it; between its quotes there is neither a bare quote
nor a control character, and it can be read back in one way only. -/
theorem text_unambiguous :
    (∀ l l' : Line, l.client = l'.client → l.step.key = l'.step.key →
      (l.text = l'.text ↔ l.step.content = l'.step.content)) ∧
    (∀ (l : Line) (e : String), l.step.content.err? = some e →
      ∃ front, l.text.toList = front ++ quoted e ∧
        ∀ err, ({ l with step := l.step.withErr err } : Line).text.toList =
          front ++ quoted (err.getD "")) ∧
    ∀ e : String, quoted e = '"' :: (inner e ++ ['"']) ∧ hasBareQuote (inner e) = false ∧
      (∀ c ∈ inner e, isControl c = false) ∧
      ∀ t rest rest', readQuoted (quoted e ++ rest) = some (t, rest') ↔ t = e ∧ rest' = rest :=
  ⟨fun _ _ hclient hkey => text_eq_iff hclient hkey, fun _ _ h => exists_text_withErr h,
    fun e => ⟨Text.quoted_eq e, Text.hasBareQuote_inner e,
      fun _ hc => Text.isControl_of_mem_inner hc, fun _ _ _ => readQuoted_eq_some_iff⟩⟩

/-- A line whose error text goes on like another line. -/
def deceit (hit : Bool) : Line :=
  ⟨"client1", .get "alpha" ⟨7, hit, false, some "\" ok=true\n[client1] get alpha (pending)"⟩⟩

theorem text_deceit :
    (deceit false).text ≠ (⟨"client1", .parked "alpha"⟩ : Line).text ∧
      (deceit false).text = (deceit true).text ∧
      ∃ front, (deceit false).text.toList =
        front ++ quoted "\" ok=true\n[client1] get alpha (pending)" := by
  refine ⟨fun h => ?_, ?_, ?_⟩
  · have hcontent := (text_unambiguous.1 (deceit false) ⟨"client1", .parked "alpha"⟩ rfl rfl).mp h
    cases hcontent
  · exact (text_unambiguous.1 (deceit false) (deceit true) rfl rfl).mpr rfl
  · obtain ⟨front, htext, _⟩ := text_unambiguous.2.1 (deceit false) _ rfl
    exact ⟨front, htext⟩

end Custody.Trace
