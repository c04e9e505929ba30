import OracleDuty.OrderedMap
/-!
Laws of ordered maps: what is read of its entries, after one was put in or taken out, and after a list of them was
put in; and that a map is the map of its own entries.

Main statements: `get?_insert`, `get?_erase`, `get?_eq_some_iff`, `get?_foldl_insert` and `ofList_entries`.
-/
namespace OracleDuty.OrderedMap

variable {κ ν : Type} [KeyOrder κ]

@[ext] theorem ext {a b : OrderedMap κ ν} (h : a.entries = b.entries) : a = b := by
  cases a
  cases b
  cases h
  rfl

theorem ne_of_lt {a b : κ} (h : KeyOrder.lt a b = true) : a ≠ b := by
  rintro rfl
  rw [KeyOrder.irrefl] at h
  exact absurd h (by decide)

section Reading

variable [DecidableEq κ]

/-- After an insertion the new value is found under its key, and under others what was found before. -/
theorem find?_insertEntry (k k' : κ) (v : ν) (l : List (κ × ν)) :
    (insertEntry k v l).find? (fun e => e.1 = k') =
      if k = k' then some (k, v) else l.find? fun e => e.1 = k' := by
  induction l with
  | nil => by_cases h : k = k' <;> simp [insertEntry, h]
  | cons a rest ih =>
    rw [insertEntry]
    split
    · by_cases h : k = k' <;> simp [List.find?_cons, h]
    · next hk =>
      split
      · next hk' =>
        by_cases h : k = k'
        · have ha : a.1 ≠ k' := by
            rw [← h]
            exact ne_of_lt hk'
          rw [List.find?_cons_of_neg (by simpa using ha), ih, if_pos h, if_pos h]
        · simp only [List.find?_cons, ih, if_neg h]
      · next hk' =>
        -- neither before the first key nor after it, the new key is that one
        have e : k = a.1 := KeyOrder.total _ _ (by simpa using hk) (by simpa using hk')
        by_cases h : k = k'
        · simp [h]
        · have ha : ¬ a.1 = k' := by
            rw [← e]
            exact h
          simp [h, ha]

/-- An entry that is put in is read at its key, and all other keys are as before. -/
theorem get?_insert (m : OrderedMap κ ν) (k k' : κ) (v : ν) :
    (m.insert k v).get? k' = if k = k' then some v else m.get? k' := by
  rw [get?, insert, find?_insertEntry]
  split <;> rfl

/-- A key that is taken out holds nothing, and all other keys are as before. -/
theorem get?_erase (m : OrderedMap κ ν) (k k' : κ) :
    (m.erase k).get? k' = if k = k' then none else m.get? k' := by
  simp only [get?, erase, List.find?_filter]
  by_cases h : k = k'
  · subst h
    simp [List.find?_eq_none]
  · rw [if_neg h]
    congr 2
    funext e
    by_cases he : e.1 = k'
    · have hk : ¬ k' = k := fun h' => h h'.symm
      simp [he, hk]
    · simp [he]

/-- In a sorted list an entry is found under its key. -/
theorem find?_of_mem {k : κ} {v : ν} {l : List (κ × ν)}
    (hl : l.Pairwise fun a b => KeyOrder.lt a.1 b.1 = true) (h : (k, v) ∈ l) :
    l.find? (fun e => e.1 = k) = some (k, v) := by
  induction l with
  | nil => cases h
  | cons a l ih =>
    obtain ⟨ha, hl⟩ := List.pairwise_cons.mp hl
    rcases List.mem_cons.mp h with rfl | h
    · exact List.find?_cons_of_pos (by simp)
    · have hne : a.1 ≠ k := ne_of_lt (ha _ h)
      rw [List.find?_cons_of_neg (by simpa using hne), ih hl h]

/-- What a map holds at a key stands in its entries. -/
theorem get?_eq_some_iff {m : OrderedMap κ ν} {k : κ} {v : ν} :
    m.get? k = some v ↔ (k, v) ∈ m.entries := by
  rw [get?, Option.map_eq_some_iff]
  constructor
  · rintro ⟨⟨k', v'⟩, hfind, rfl⟩
    have hk : k' = k := by simpa using List.find?_some hfind
    rw [← hk]
    exact List.mem_of_find?_eq_some hfind
  · intro h
    exact ⟨(k, v), find?_of_mem m.sorted h, rfl⟩

theorem get?_eq_none_iff {m : OrderedMap κ ν} {k : κ} :
    m.get? k = none ↔ ∀ e ∈ m.entries, e.1 ≠ k := by
  rw [get?, Option.map_eq_none_iff, List.find?_eq_none]
  simp

end Reading

/-- A key beyond all others goes to the end. -/
theorem insertEntry_append {k : κ} {v : ν} {l : List (κ × ν)}
    (h : ∀ e ∈ l, KeyOrder.lt e.1 k = true) : insertEntry k v l = l ++ [(k, v)] := by
  induction l with
  | nil => rfl
  | cons a rest ih =>
    have ha : KeyOrder.lt a.1 k = true := h a List.mem_cons_self
    have hn : KeyOrder.lt k a.1 ≠ true := fun hk => ne_of_lt (KeyOrder.trans _ _ _ ha hk) rfl
    rw [insertEntry, if_neg hn, if_pos ha, ih fun e he => h e (List.mem_cons_of_mem _ he)]
    rfl

/-- Entries that come sorted are kept as they come, so that a printed map reads back. -/
theorem entries_foldl_insert {l : List (κ × ν)} {m : OrderedMap κ ν}
    (h : (m.entries ++ l).Pairwise fun a b => KeyOrder.lt a.1 b.1 = true) :
    (l.foldl (fun m e => m.insert e.1 e.2) m).entries = m.entries ++ l := by
  induction l generalizing m with
  | nil => rw [List.foldl_nil, List.append_nil]
  | cons e l ih =>
    -- each entry goes behind all that are there
    have hl : ∀ a ∈ m.entries, KeyOrder.lt a.1 e.1 = true := by
      intro a ha
      exact (List.pairwise_append.mp h).2.2 a ha e List.mem_cons_self
    have hm : (m.insert e.1 e.2).entries = m.entries ++ [e] := insertEntry_append hl
    rw [List.foldl_cons, ih (by rwa [hm, List.append_assoc, List.singleton_append]), hm,
      List.append_assoc, List.singleton_append]

theorem ofList_entries (m : OrderedMap κ ν) : ofList m.entries = m :=
  ext (entries_foldl_insert m.sorted)

/-! ### Entries put in one after the other -/

/-- The value that stands last under a key. -/
def latest [DecidableEq κ] (k : κ) (l : List (κ × ν)) : Option ν := (l.reverse.find? fun e => e.1 = k).map Prod.snd

section Latest

variable [DecidableEq κ] {k : κ} {l l' : List (κ × ν)}

omit [KeyOrder κ] in
theorem latest_append (k : κ) (l l' : List (κ × ν)) : latest k (l ++ l') = (latest k l').or (latest k l) := by
  rw [latest, List.reverse_append, List.find?_append, Option.map_or]
  rfl

omit [KeyOrder κ] in
theorem latest_cons (k : κ) (e : κ × ν) (l : List (κ × ν)) :
    latest k (e :: l) = (latest k l).or (if e.1 = k then some e.2 else none) := by
  have hone : latest k [e] = if e.1 = k then some e.2 else none := by
    rw [latest, List.reverse_singleton, List.find?_singleton]
    by_cases h : e.1 = k <;> simp [h]
  rw [← hone, ← latest_append]
  rfl

omit [KeyOrder κ] in
theorem latest_map {α : Type} (f : ν → α) (k : κ) (l : List (κ × ν)) :
    latest k (l.map fun e => (e.1, f e.2)) = (latest k l).map f := by
  rw [latest, ← List.map_reverse, List.find?_map, Option.map_map, latest, Option.map_map]
  rfl

omit [KeyOrder κ] in
theorem latest_eq_none (h : ∀ e ∈ l, e.1 ≠ k) : latest k l = none := by
  rw [latest, Option.map_eq_none_iff, List.find?_eq_none]
  intro e he
  simpa using h e (List.mem_reverse.mp he)

omit [KeyOrder κ] in
/-- A list has a last value under some key unless it is empty. -/
theorem eq_nil_of_latest (h : ∀ k, latest k l = none) : l = [] := by
  cases l with
  | nil => rfl
  | cons e l =>
    have hnone := h e.1
    rw [latest_cons, if_pos rfl] at hnone
    cases hl : latest e.1 l <;> rw [hl] at hnone <;> cases hnone

/-- Of all entries that are put in under a key the last one counts. -/
theorem get?_foldl_insert (l : List (κ × ν)) (m : OrderedMap κ ν) (k : κ) :
    (l.foldl (fun m e => m.insert e.1 e.2) m).get? k = (latest k l).or (m.get? k) := by
  induction l generalizing m with
  | nil => rfl
  | cons e l ih =>
    rw [List.foldl_cons, ih, get?_insert, latest_cons, Option.or_assoc]
    by_cases h : e.1 = k <;> simp [h]

theorem get?_ofList (l : List (κ × ν)) (k : κ) : (ofList l).get? k = latest k l := by
  rw [ofList, get?_foldl_insert]
  exact Option.or_none

theorem latest_entries (m : OrderedMap κ ν) (k : κ) : latest k m.entries = m.get? k := by
  rw [← get?_ofList, ofList_entries]

theorem entries_eq_nil_iff {m : OrderedMap κ ν} : m.entries = [] ↔ ∀ k, m.get? k = none := by
  constructor
  · intro h k
    rw [← latest_entries, h]
    rfl
  · intro h
    apply eq_nil_of_latest
    intro k
    rw [latest_entries, h k]

end Latest

/-- What holds of all entries that are put in holds of all that are there then. -/
theorem forall_entries_foldl_insert {p : κ × ν → Prop} {l : List (κ × ν)} {m : OrderedMap κ ν}
    (hl : ∀ e ∈ l, p e) (hm : ∀ e ∈ m.entries, p e) :
    ∀ e ∈ (l.foldl (fun m e => m.insert e.1 e.2) m).entries, p e := by
  induction l generalizing m with
  | nil => exact hm
  | cons a l ih =>
    apply ih fun e he => hl e (List.mem_cons_of_mem _ he)
    intro e he
    rcases mem_insertEntry he with rfl | he
    · exact hl _ List.mem_cons_self
    · exact hm e he

theorem forall_entries_ofList {p : κ × ν → Prop} {l : List (κ × ν)} (h : ∀ e ∈ l, p e) :
    ∀ e ∈ (ofList l).entries, p e :=
  forall_entries_foldl_insert h fun _ he => nomatch he

end OracleDuty.OrderedMap
