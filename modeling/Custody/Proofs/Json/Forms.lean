import Custody.Proofs.Json.RoundTrip
import Custody.Trace

/-!
# Nothing is lost

Replies and trace lines have a JSON form from which they are recovered, whatever Unicode their
texts have and however large their values are.
-/

namespace Custody

/-- No record in it, however deep, has two members of one name. -/
inductive Json.Tidy : Json → Prop where
  | bool (b : Bool) : Tidy (.bool b)
  | int (i : Int) : Tidy (.int i)
  | text (s : String) : Tidy (.text s)
  | list (items : List Json) (hitems : ∀ v ∈ items, Tidy v) : Tidy (.list items)
  | record (members : List (String × Json)) (hnames : (members.map Prod.fst).Nodup)
      (hmembers : ∀ m ∈ members, Tidy m.2) : Tidy (.record members)

/-- The text of the JSON form is one line, and it is decoded to a record with distinct member names
from which the one thing it is the form of is recovered. -/
structure Json.Lossless {α : Type} (json : α → Json) (ofJson? : Json → Option α) : Prop where
  line : ∀ a, Plain (json a).render.toList
  recovered : ∀ a, ∃ members, parse? (json a).render = some (.record members) ∧
    (Json.record members).Tidy ∧ ofJson? (.record members) = some a
  distinct : ∀ a b, (json a).render = (json b).render ↔ a = b

/-- It is enough to look at the values, without their texts. -/
theorem Json.lossless_of_members {α : Type} {json : α → Json} {ofJson? : Json → Option α}
    (hrecord : ∀ a, ∃ members, json a = .record members) (htidy : ∀ a, (json a).Tidy)
    (hback : ∀ a, ofJson? (json a) = some a) : Lossless json ofJson? where
  line a := plain_render (json a)
  recovered a := by
    obtain ⟨members, hmembers⟩ := hrecord a
    refine ⟨members, ?_, ?_, ?_⟩
    · rw [parse?_render, hmembers]
    · rw [← hmembers]
      exact htidy a
    · rw [← hmembers, hback]
  distinct a b := by
    constructor
    · intro hsame
      have hread := congrArg ofJson? (render_injective hsame)
      rw [hback, hback] at hread
      exact Option.some.inj hread
    · rintro rfl
      rfl

theorem Json.value?_json (v : Value) : (Value.json v).value? = some v := by
  rw [Value.json, value?, if_pos ⟨Int64.minValue_le_toInt v, Int64.toInt_le v⟩, Int64.ofInt_toInt]

theorem StoreReply.ofJson?_json (r : StoreReply) : ofJson? r.json = some r := by
  simp [ofJson?, json, Json.member?, List.lookup_cons, Json.value?_json, Json.bool?]

theorem StoreReply.tidy_json (r : StoreReply) : r.json.Tidy := by
  refine .record _ (by simp) ?_
  simp [Value.json, Json.Tidy.int, Json.Tidy.bool]

theorem ClientReply.tidy_json (r : ClientReply) : r.json.Tidy := by
  obtain ⟨v, hit, ok, err⟩ := r
  refine .record _ ?_ ?_
  · cases err <;> simp
  · cases err <;> simp [Value.json, Json.Tidy.int, Json.Tidy.bool, Json.Tidy.text]

theorem ClientReply.ofJson?_json (r : ClientReply) : ofJson? r.json = some r := by
  obtain ⟨v, hit, ok, err⟩ := r
  cases err with
  | none => simp [ofJson?, json, Json.member?, List.lookup_cons, Json.value?_json, Json.bool?]
  | some e =>
    simp [ofJson?, json, Json.member?, List.lookup_cons, Json.value?_json, Json.bool?, Json.text?]

theorem mapM_some {α : Type} (l : List α) : (l.mapM fun a => some a) = some l := by
  induction l with
  | nil => rfl
  | cons a l ih => simp [ih]

theorem Snapshot.ofJson?_json (shot : Snapshot) : ofJson? shot.json = some shot := by
  obtain ⟨values, owned, waiting⟩ := shot
  have hvalues : (values.mapM fun kv => some (kv.1, kv.2)) = some values := mapM_some values
  simp [ofJson?, json, Json.member?, List.lookup_cons, Json.record?, Json.list?, Function.comp_def,
    Json.value?_json, Json.text?, hvalues, mapM_some]

namespace Trace

theorem Line.tidy_json (l : Line) : l.json.Tidy := by
  obtain ⟨client, step⟩ := l
  refine .record _ ?_ ?_
  · cases step <;> simp [Step.members]
  · cases step <;>
      simp [Step.members, Value.json, Json.Tidy.int, Json.Tidy.text, ClientReply.tidy_json]

theorem Line.ofJson?_json (l : Line) : ofJson? l.json = some l := by
  obtain ⟨client, step⟩ := l
  cases step with
  | get k r =>
    simp [ofJson?, Step.ofJson?, json, Step.members, Json.member?, List.lookup_cons, Json.text?,
      ClientReply.ofJson?_json]
  | put k v r =>
    simp [ofJson?, Step.ofJson?, json, Step.members, Json.member?, List.lookup_cons, Json.text?,
      ClientReply.ofJson?_json, Json.value?_json]
  | parked k =>
    simp [ofJson?, Step.ofJson?, json, Step.members, Json.member?, List.lookup_cons, Json.text?]
  | resumed k r =>
    simp [ofJson?, Step.ofJson?, json, Step.members, Json.member?, List.lookup_cons, Json.text?,
      ClientReply.ofJson?_json]

end Trace

/-- Trace lines, client replies and store replies can be told from their JSON texts. -/
theorem json_lossless :
    Json.Lossless Trace.Line.json Trace.Line.ofJson? ∧
      Json.Lossless ClientReply.json ClientReply.ofJson? ∧
      Json.Lossless StoreReply.json StoreReply.ofJson? :=
  ⟨Json.lossless_of_members (fun _ => ⟨_, rfl⟩) Trace.Line.tidy_json Trace.Line.ofJson?_json,
    Json.lossless_of_members (fun _ => ⟨_, rfl⟩) ClientReply.tidy_json ClientReply.ofJson?_json,
    Json.lossless_of_members (fun _ => ⟨_, rfl⟩) StoreReply.tidy_json StoreReply.ofJson?_json⟩

end Custody
