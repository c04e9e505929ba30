import OracleDuty.Log.Line
import OracleDuty.Proofs.Json.Printed
import OracleDuty.Proofs.OrderedMap
/-!
Lines of the log: each event is one line that reads back as an object. Its fields are those of the spans around the
event, merged from the outermost to the innermost as they were given and recorded, and over them the event's own.

Main statement: `line_reads`.
-/
namespace OracleDuty.Text

/-! ### Outer quotes -/

/-- The text `t` is what is between all quotes that `s` begins and ends with. -/
structure IsUnquoted (s t : String) : Prop where
  between : ∃ m n, s.toList = List.replicate m '"' ++ t.toList ++ List.replicate n '"'
  front : t.toList.head? ≠ some '"'
  back : t.toList.getLast? ≠ some '"'

variable {cs : List Char}

theorem dropWhile_replicate (n : Nat) (h : cs.head? ≠ some '"') :
    (List.replicate n '"' ++ cs).dropWhile (· == '"') = cs := by
  have hquotes : ∀ c ∈ List.replicate n '"', (c == '"') = true := by
    intro c hc
    rw [List.eq_of_mem_replicate hc]
    rfl
  rw [List.dropWhile_append_of_pos hquotes]
  cases cs with
  | nil => rfl
  | cons c cs =>
    have hc : ¬(c == '"') = true := by
      intro hc
      exact h (congrArg some (beq_iff_eq.mp hc))
    exact List.dropWhile_cons_of_neg hc

theorem takeWhile_eq_replicate (cs : List Char) :
    ∃ n, cs.takeWhile (· == '"') = List.replicate n '"' := by
  refine ⟨_, List.eq_replicate_iff.mpr ⟨rfl, ?_⟩⟩
  intro c hc
  exact beq_iff_eq.mp (List.all_eq_true.mp List.all_takeWhile c hc)

theorem head?_dropWhile_ne (cs : List Char) : (cs.dropWhile (· == '"')).head? ≠ some '"' := by
  intro h
  have hhead := List.head?_dropWhile_not (· == '"') cs
  rw [h] at hhead
  exact Bool.noConfusion hhead

/-- The quotes that are taken away are all that the text begins and ends with. -/
theorem isUnquoted_unquoted (s : String) : IsUnquoted s (unquoted s) := by
  obtain ⟨m, hm⟩ := takeWhile_eq_replicate s.toList
  obtain ⟨n, hn⟩ := takeWhile_eq_replicate (s.toList.dropWhile (· == '"')).reverse
  have hfront := List.takeWhile_append_dropWhile (p := (· == '"')) (l := s.toList)
  have hback := List.takeWhile_append_dropWhile (p := (· == '"')) (l := (s.toList.dropWhile (· == '"')).reverse)
  have hmiddle : s.toList.dropWhile (· == '"') =
      (unquoted s).toList ++ List.replicate n '"' := by
    rw [hn] at hback
    have hreverse := congrArg List.reverse hback
    rw [List.reverse_append, List.reverse_reverse, List.reverse_replicate] at hreverse
    rw [unquoted, String.toList_ofList]
    exact hreverse.symm
  constructor
  · exact ⟨m, n, by rw [List.append_assoc, ← hmiddle, ← hm, hfront]⟩
  · intro h
    have hhead := head?_dropWhile_ne s.toList
    rw [hmiddle, List.head?_append, h] at hhead
    exact hhead rfl
  · intro h
    rw [unquoted, String.toList_ofList, List.getLast?_reverse] at h
    exact head?_dropWhile_ne _ h

/-- The definition by counting quotes and the one by dropping them agree. -/
theorem isUnquoted_iff {s t : String} : IsUnquoted s t ↔ t = unquoted s := by
  constructor
  · rintro ⟨⟨m, n, hs⟩, hfront, hback⟩
    apply String.toList_inj.mp
    rw [unquoted, hs, String.toList_ofList, List.append_assoc]
    -- nothing is left in front of the quotes at the end, or what is left begins with no quote
    cases ht : t.toList with
    | nil =>
      have hall := @dropWhile_replicate [] m nofun
      have hrest := @dropWhile_replicate [] (m + n) nofun
      rw [List.append_nil] at hrest
      rw [List.nil_append, List.replicate_append_replicate, hrest]
      rfl
    | cons c cs =>
      have hhead : (t.toList ++ List.replicate n '"').head? ≠ some '"' := by
        rw [List.head?_append, ht]
        rwa [ht] at hfront
      have hlast : t.toList.reverse.head? ≠ some '"' := by
        rwa [List.head?_reverse]
      rw [← ht, dropWhile_replicate m hhead, List.reverse_append, List.reverse_replicate,
        dropWhile_replicate n hlast, List.reverse_reverse]
  · rintro rfl
    exact isUnquoted_unquoted s

end OracleDuty.Text

namespace OracleDuty.Log

open OrderedMap
open Text

/-! ### Values -/

/-- What a value of an event is read as: numbers and flags as themselves, others as their texts. -/
inductive Value.Reads : Value → Json → Prop where
  | unsigned (n : UInt64) : Reads (.unsigned n) (.integer n.toNat)
  | signed (i : Int64) : Reads (.signed i) (.integer i.toInt)
  | flag (b : Bool) : Reads (.flag b) (.bool b)
  | text (s : String) : Reads (.text s) (.string s)
  | shown {s t : String} : IsUnquoted s t → Reads (.shown s) (.string t)

/-- What a value of a span is read as, which is a text always. -/
inductive Value.ReadsText : Value → String → Prop where
  | text (s : String) : ReadsText (.text s) s
  | laidOut {v : Value} {t : String} : (∀ s, v ≠ .text s) → IsUnquoted v.laidOut t → ReadsText v t

/-- The reading of a value in words is what the printer makes of it. -/
theorem Value.reads_iff {v : Value} {j : Json} : v.Reads j ↔ j = v.toJson := by
  constructor
  · rintro (_ | _ | _ | _ | h)
    · rfl
    · rfl
    · rfl
    · rfl
    · rw [isUnquoted_iff.mp h]
      rfl
  · rintro rfl
    cases v with
    | unsigned n => exact .unsigned n
    | signed i => exact .signed i
    | flag b => exact .flag b
    | text s => exact .text s
    | shown s => exact .shown (isUnquoted_unquoted s)

theorem Value.readsText_iff {v : Value} {t : String} : v.ReadsText t ↔ t = v.spanText := by
  constructor
  · rintro (_ | ⟨hv, h⟩)
    · rfl
    · rw [isUnquoted_iff.mp h, spanText.eq_2 v hv]
  · rintro rfl
    cases v with
    | text s => exact .text s
    | _ => exact .laidOut (fun _ h => nomatch h) (isUnquoted_unquoted _)

theorem Value.plain_toJson (v : Value) : v.toJson.Plain := by
  cases v with
  | unsigned n => exact Json.plain_ofUInt64 n
  | signed i => exact Json.plain_of_int64 i
  | _ => trivial

/-! ### Spans -/

/-- A span by the fields that it was given at first, and by those that were recorded on it later, time after time. -/
structure Span where
  given : List (String × Value)
  recorded : List (List (String × Value))

namespace Span

def fields (s : Span) : SpanFields := s.recorded.foldl SpanFields.record (.ofFields s.given)

/-- All fields that the span was told, in the order of time. -/
def told (s : Span) : List (String × Value) := s.given ++ s.recorded.flatten

theorem record_record (m : SpanFields) (l l' : List (String × Value)) :
    (m.record l).record l' = m.record (l ++ l') := List.foldl_append.symm

theorem fields_eq (s : Span) : s.fields = SpanFields.record .empty s.told := by
  rw [fields, told, SpanFields.ofFields, ← record_record]
  generalize SpanFields.record .empty s.given = m
  induction s.recorded generalizing m with
  | nil => rfl
  | cons l recorded ih => rw [List.foldl_cons, ih, record_record, List.flatten_cons]

/-- A field that was told again has the value told last. -/
theorem get?_fields (s : Span) (name : String) : s.fields.get? name = (latest name s.told).map Value.spanText := by
  have hrecord : SpanFields.record .empty s.told = .ofList (s.told.map fun f => (f.1, f.2.spanText)) := by
    rw [ofList, List.foldl_map]
    rfl
  rw [fields_eq, hrecord, get?_ofList, latest_map]

end Span

theorem latest_flatMap {α ν : Type} {f g : α → List (String × ν)} {name : String}
    (h : ∀ a, latest name (f a) = latest name (g a)) (l : List α) :
    latest name (l.flatMap f) = latest name (l.flatMap g) := by
  induction l with
  | nil => rfl
  | cons a l ih => rw [List.flatMap_cons, List.flatMap_cons, latest_append, latest_append, ih, h a]

/-! ### Fields and message of an event -/

def isMessage (f : String × Value) : Bool :=
  f.1 == messageField && match f.2 with
    | .text _ => true
    | .shown _ => true
    | _ => false

/-- What stands as the message of an event, as a rule one text. -/
def Event.messages (e : Event) : List (String × Value) := e.told.filter isMessage

/-- The fields of an event besides its message. -/
def Event.own (e : Event) : List (String × Value) := e.told.filter (!isMessage ·)

/-- A message takes the place of the one before it. -/
theorem Content.add_of_isMessage {f : String × Value} (h : isMessage f = true) (c : Content) :
    ∃ s, f.2.toJson = .string s ∧ c.add f = { c with message := some s } := by
  obtain ⟨hname, htext⟩ := Bool.and_eq_true_iff.mp h
  obtain ⟨name, v⟩ := f
  obtain rfl : name = messageField := beq_iff_eq.mp hname
  cases v with
  | text s => exact ⟨s, rfl, rfl⟩
  | shown s => exact ⟨unquoted s, rfl, rfl⟩
  | _ => cases htext

/-- Any other field is recorded under its name. -/
theorem Content.add_of_not_isMessage {f : String × Value} (h : isMessage f = false) (c : Content) :
    c.add f = { c with fields := c.fields.insert f.1 f.2.toJson } := by
  obtain ⟨name, v⟩ := f
  cases v with
  | text s =>
    have hname : name ≠ messageField := by simpa [isMessage] using h
    exact if_neg hname
  | shown s =>
    have hname : name ≠ messageField := by simpa [isMessage] using h
    exact if_neg hname
  | _ => rfl

/-- The message is the last one, and all else is among the fields. -/
theorem Content.foldl_add (l : List (String × Value)) (c : Content) :
    (l.foldl Content.add c).message.map Json.string =
      (((l.filter isMessage).getLast?.map fun f => f.2.toJson).or (c.message.map Json.string)) ∧
    (l.foldl Content.add c).fields =
      ((l.filter (!isMessage ·)).map fun f => (f.1, f.2.toJson)).foldl (fun m e => m.insert e.1 e.2) c.fields := by
  induction l generalizing c with
  | nil => exact ⟨rfl, rfl⟩
  | cons f l ih =>
    rw [List.foldl_cons]
    cases h : isMessage f with
    | true =>
      obtain ⟨s, hs, hadd⟩ := Content.add_of_isMessage h c
      obtain ⟨hmessage, hfields⟩ := ih (c.add f)
      rw [hadd] at hmessage hfields ⊢
      rw [hmessage, hfields, List.filter_cons_of_pos h, List.filter_cons_of_neg (by simp [h]), List.getLast?_cons]
      refine ⟨?_, rfl⟩
      cases (l.filter isMessage).getLast? with
      | none => exact congrArg some hs.symm
      | some f => rfl
    | false =>
      obtain ⟨hmessage, hfields⟩ := ih (c.add f)
      rw [Content.add_of_not_isMessage h] at hmessage hfields ⊢
      rw [hmessage, hfields, List.filter_cons_of_neg (by simp [h]), List.filter_cons_of_pos (by simp [h])]
      exact ⟨rfl, rfl⟩

theorem Event.message_content (e : Event) :
    e.content.message.map Json.string = e.messages.getLast?.map fun f => f.2.toJson := by
  rw [Event.content, (Content.foldl_add e.told .empty).1]
  exact Option.or_none

theorem Event.fields_content (e : Event) :
    e.content.fields = .ofList (e.own.map fun f => (f.1, f.2.toJson)) :=
  (Content.foldl_add e.told .empty).2

/-! ### Merged fields -/

/-- The fields of spans are put in one after the other, and then those of the event. -/
theorem merge_eq (spans : List SpanFields) (own : OrderedMap String Json) : merge spans own = .ofList
    (((spans.flatMap fun s => s.entries).map fun f => (f.1, Json.string f.2)) ++ own.entries) := by
  rw [merge, ofList, List.foldl_append, List.foldl_map, List.foldl_flatMap]

/-- The last value of an event's own fields, or else that of the spans from the outermost on. -/
theorem get?_merge (spans : List Span) (e : Event) (name : String) :
    (merge (spans.map Span.fields) e.content.fields).get? name =
      ((latest name e.own).map Value.toJson).or
        ((latest name (spans.flatMap Span.told)).map fun v => .string v.spanText) := by
  have hown : latest name e.content.fields.entries = (latest name e.own).map Value.toJson := by
    rw [latest_entries, e.fields_content, get?_ofList, latest_map]
  have hspans : latest name ((spans.map Span.fields).flatMap fun s => s.entries) =
      (latest name (spans.flatMap Span.told)).map Value.spanText := by
    rw [← latest_map, List.flatMap_map, List.map_flatMap]
    apply latest_flatMap
    intro s
    rw [latest_entries, s.get?_fields, latest_map]
  rw [merge_eq, get?_ofList, latest_append, hown, latest_map, hspans, Option.map_map]
  rfl

/-- A line has no fields just when neither the event nor a span was told any. -/
theorem entries_merge_eq_nil_iff (spans : List Span) (e : Event) :
    (merge (spans.map Span.fields) e.content.fields).entries = [] ↔ e.own = [] ∧ ∀ s ∈ spans, s.told = [] := by
  rw [entries_eq_nil_iff, ← List.flatMap_eq_nil_iff]
  constructor
  · intro h
    have hnone : ∀ name, latest name e.own = none ∧ latest name (spans.flatMap Span.told) = none := by
      intro name
      have hname := h name
      rwa [get?_merge, Option.or_eq_none_iff, Option.map_eq_none_iff, Option.map_eq_none_iff] at hname
    exact ⟨eq_nil_of_latest fun name => (hnone name).1, eq_nil_of_latest fun name => (hnone name).2⟩
  · rintro ⟨hown, hspans⟩ name
    rw [get?_merge, hown, hspans]
    rfl

/-- What a line holds can be printed and read back. -/
theorem plain_merge (spans : List SpanFields) (e : Event) :
    ∀ f ∈ (merge spans e.content.fields).entries, f.2.Plain := by
  rw [merge_eq]
  apply forall_entries_ofList
  intro f hf
  rcases List.mem_append.mp hf with hf | hf
  · obtain ⟨_, _, rfl⟩ := List.mem_map.mp hf
    trivial
  · rw [e.fields_content] at hf
    apply forall_entries_ofList _ f hf
    intro f hf
    obtain ⟨f, _, rfl⟩ := List.mem_map.mp hf
    exact f.2.plain_toJson

/-! ### Lines -/

variable (stamp : Option Stamp) (spans : List Span) (e : Event)

def head : List (String × Json) :=
  (stamp.map Stamp.entries).getD [] ++ [("level", .string e.level.name), ("target", .string e.target),
    ("service", .string (serviceName e.target))]

def shownFields : OrderedMap String Json := merge (spans.map Span.fields) e.content.fields

def root : OrderedMap String Json := .ofList
  (head stamp e ++ (e.content.message.map fun text => (messageField, Json.string text)).toList ++
    if (shownFields spans e).entries.isEmpty then [] else [("fields", .object (shownFields spans e).entries)])

theorem lineJson_eq : lineJson stamp (spans.map Span.fields) e = .object (root stamp spans e).entries := by
  simp only [lineJson, root, head, shownFields, List.append_assoc]
  rfl

/-- The entries in front of the message do not get in its way. -/
theorem head_names : ∀ f ∈ head stamp e, f.1 ≠ messageField ∧ f.1 ≠ "fields" := by
  have hstamp : ∀ f ∈ (stamp.map Stamp.entries).getD [], f.1 ≠ messageField ∧ f.1 ≠ "fields" := by
    cases stamp with
    | none => exact fun _ hf => nomatch hf
    | some s => cases s with
      | mk timestamp file lineNumber => cases file <;> cases lineNumber <;> simp [Stamp.entries, messageField]
  have hevent : ∀ f ∈ [("level", Json.string e.level.name), ("target", .string e.target),
      ("service", .string (serviceName e.target))], f.1 ≠ messageField ∧ f.1 ≠ "fields" := by
    simp [messageField]
  intro f hf
  exact (List.mem_append.mp hf).elim (hstamp f) (hevent f)

theorem get?_root_message : (root stamp spans e).get? messageField = e.messages.getLast?.map fun f => f.2.toJson := by
  have hhead : latest messageField (head stamp e) = none :=
    latest_eq_none fun f hf => (head_names stamp e f hf).1
  rw [← e.message_content, root, get?_ofList, latest_append, latest_append, hhead, Option.or_none]
  cases e.content.message <;> cases (shownFields spans e).entries <;> rfl

theorem get?_root_fields : (root stamp spans e).get? "fields" =
    if (shownFields spans e).entries = [] then none else some (.object (shownFields spans e).entries) := by
  have hhead : latest "fields" (head stamp e) = none :=
    latest_eq_none fun f hf => (head_names stamp e f hf).2
  rw [root, get?_ofList, latest_append, latest_append, hhead, Option.or_none]
  cases e.content.message <;> cases (shownFields spans e).entries <;> rfl

theorem Stamp.plain_entries (s : Stamp) : ∀ f ∈ s.entries, f.2.Plain := by
  have hline : ∀ n : UInt32, (n.toNat : Int) < 18446744073709551616 := by
    intro n
    have := n.toNat_lt
    omega
  cases s with
  | mk timestamp file lineNumber => cases file <;> cases lineNumber <;> simp [entries, Json.Plain, hline]

theorem plain_root : (Json.object (root stamp spans e).entries).Plain := by
  apply Json.plainEntries_iff.mpr
  apply forall_entries_ofList
  intro f hf
  rcases List.mem_append.mp hf with hf | hf
  · rcases List.mem_append.mp hf with hf | hf
    · rcases List.mem_append.mp hf with hf | hf
      · cases stamp with
        | none => cases hf
        | some s => exact s.plain_entries f hf
      · simp only [List.mem_cons, List.not_mem_nil, or_false] at hf
        rcases hf with rfl | rfl | rfl <;> trivial
    · obtain ⟨_, _, rfl⟩ := Option.map_eq_some_iff.mp (Option.mem_toList.mp hf)
      trivial
  · split at hf
    · cases hf
    · obtain rfl := List.mem_singleton.mp hf
      exact Json.plainEntries_iff.mpr (plain_merge (spans.map Span.fields) e)

/-- An event is one line, which reads back as an object. Its message is the last one of the event. Its fields are
there if anything was told, and each holds the last value that the event has for it; where the event has none, the
text of the last value that was told to the innermost span with a value. -/
theorem line_reads : ∃ (text : String) (root : OrderedMap String Json),
    line stamp (spans.map Span.fields) e = text ++ "\n" ∧ '\n' ∉ text.toList ∧
    Json.read? text = some (.object root.entries) ∧
    (∀ j, root.get? "message" = some j ↔ ∃ f, e.messages.getLast? = some f ∧ f.2.Reads j) ∧
    ((root.get? "fields" = none ∧ e.own = [] ∧ ∀ s ∈ spans, s.told = []) ∨
      ((e.own ≠ [] ∨ ∃ s ∈ spans, s.told ≠ []) ∧
        ∃ fields : OrderedMap String Json, root.get? "fields" = some (.object fields.entries) ∧
          ∀ name j, fields.get? name = some j ↔
            (∃ v, latest name e.own = some v ∧ v.Reads j) ∨
            (latest name e.own = none ∧
              ∃ v t, latest name (spans.flatMap Span.told) = some v ∧ v.ReadsText t ∧ j = .string t))) := by
  refine ⟨(lineJson stamp (spans.map Span.fields) e).render, root stamp spans e, rfl, ?_, ?_, ?_, ?_⟩
  · rw [lineJson_eq]
    exact Json.newline_not_mem_render (plain_root stamp spans e)
  · rw [lineJson_eq]
    exact Json.read?_render (plain_root stamp spans e)
  · intro j
    rw [show "message" = messageField from rfl, get?_root_message, Option.map_eq_some_iff]
    simp only [Value.reads_iff, eq_comm]
  · have hnil := entries_merge_eq_nil_iff spans e
    rw [get?_root_fields]
    by_cases h : (shownFields spans e).entries = []
    · exact .inl ⟨if_pos h, hnil.mp h⟩
    · have htold : e.own ≠ [] ∨ ∃ s ∈ spans, s.told ≠ [] := by
        by_contra hnone
        push Not at hnone
        exact h (hnil.mpr hnone)
      refine .inr ⟨htold, shownFields spans e, if_neg h, ?_⟩
      intro name j
      rw [shownFields, get?_merge]
      cases latest name e.own with
      | some v => simp [Value.reads_iff, eq_comm]
      | none => cases latest name (spans.flatMap Span.told) <;> simp [Value.readsText_iff, eq_comm]

-- a field recorded again, and a line feed in the message
example :
    line none ([⟨[("task", .text "a")], [[("task", .text "b")]]⟩].map Span.fields)
      (event .lane .info "one\ntwo" [("kept", .unsigned 3)]) =
    "\x7b\"fields\":\x7b\"kept\":3,\"task\":\"b\"\x7d,\"level\":\"INFO\",\"message\":\"one\\ntwo\"," ++
      "\"service\":\"-\",\"target\":\"watchtower::worker::single_flight\"\x7d\n" := by
  decide +kernel

end OracleDuty.Log
