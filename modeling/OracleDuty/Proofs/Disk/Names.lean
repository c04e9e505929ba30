import OracleDuty.Disk
/-!
The names that paths go through: joining a directory and a name joins their names, and a suffix of the text
is a suffix of the last name.

Main statements: `names_join`, `isAbsolute_join`, `names_append` and `apart_append`.
-/
namespace OracleDuty.Path

theorem pieces_ne_nil (l : List Char) : pieces l ≠ [] := by
  induction l with
  | nil => simp [pieces]
  | cons c rest ih =>
    rw [pieces]
    split
    · simp
    · split <;> simp

/-- A slash separates: the pieces before it and the pieces behind it are read on their own. -/
theorem pieces_append_slash (a b : List Char) : pieces (a ++ '/' :: b) = pieces a ++ pieces b := by
  induction a with
  | nil => simp [pieces]
  | cons c rest ih =>
    rw [List.cons_append, pieces, pieces, ih]
    split
    · rfl
    · cases hp : pieces rest with
      | nil => exact absurd hp (pieces_ne_nil rest)
      | cons piece others => rfl

/-- Text without slashes goes into the last piece. -/
theorem pieces_append (a : List Char) {b : List Char} (hb : '/' ∉ b) :
    ∃ front last, pieces a = front ++ [last] ∧ pieces (a ++ b) = front ++ [last ++ b] := by
  induction a with
  | nil =>
    refine ⟨[], [], rfl, ?_⟩
    induction b with
    | nil => rfl
    | cons c rest ih =>
      simp only [List.mem_cons, not_or] at hb
      have hrest : pieces rest = [rest] := ih hb.2
      rw [List.nil_append, pieces, if_neg (Ne.symm hb.1), hrest]
      rfl
  | cons c rest ih =>
    obtain ⟨front, last, h, happ⟩ := ih
    rw [List.cons_append, pieces, pieces, h, happ]
    by_cases hc : c = '/'
    · exact ⟨[] :: front, last, by simp [hc], by simp [hc]⟩
    · rw [if_neg hc, if_neg hc]
      cases front with
      | nil => exact ⟨[], c :: last, rfl, rfl⟩
      | cons piece others => exact ⟨(c :: piece) :: others, last, rfl, rfl⟩

theorem pieces_of_not_mem {l : List Char} (h : '/' ∉ l) : pieces l = [l] := by
  obtain ⟨front, last, hp, happ⟩ := pieces_append [] h
  have hempty : [] ++ [[]] = front ++ [last] := hp
  obtain ⟨rfl, hl⟩ := List.append_inj' hempty rfl
  cases hl
  exact happ

def namesIn (l : List Char) : List String := ((pieces l).filter (· ≠ [])).map String.ofList

theorem names_eq (p : Path) : p.names = namesIn p.toList := rfl

theorem namesIn_append_slash (a b : List Char) :
    namesIn (a ++ '/' :: b) = namesIn a ++ namesIn b := by
  simp [namesIn, pieces_append_slash]

theorem endsWith_slash {p : Path} : p.endsWith "/" = true ↔ ['/'] <:+ p.toList := by
  change p.toSlice.endsWith "/" = true ↔ _
  rw [String.Slice.endsWith_string_iff, String.copy_toSlice]
  rfl

/-- The names of a joined path are those of the directory and then those of the name. -/
theorem names_join (dir : Path) (name : String) : (join dir name).names = dir.names ++ names name := by
  simp only [names_eq]
  unfold join
  split
  · next h =>
    rw [String.isEmpty_iff] at h
    subst h
    rfl
  · split
    · next h =>
      obtain ⟨front, hf⟩ := endsWith_slash.mp h
      have hdir : dir.toList = front ++ '/' :: [] := hf.symm
      rw [String.toList_append, hdir, List.append_assoc, List.cons_append, List.nil_append,
        namesIn_append_slash, namesIn_append_slash]
      simp [namesIn, pieces]
    · rw [String.toList_append, String.toList_append]
      exact (congrArg namesIn (List.append_assoc _ _ _)).trans (namesIn_append_slash _ _)

theorem isAbsolute_iff {p : Path} : p.isAbsolute = true ↔ p.toList.head? = some '/' := by
  rw [isAbsolute, String.startsWith_string_iff]
  cases p.toList with
  | nil => simp
  | cons c rest => simp [List.cons_prefix_cons, eq_comm]

/-- A name that does not start with a slash leaves it to the directory where the path starts. -/
theorem isAbsolute_join (dir : Path) {name : String} (h : name.toList.head? ≠ some '/') :
    (join dir name).isAbsolute = dir.isAbsolute := by
  rw [Bool.eq_iff_iff, isAbsolute_iff, isAbsolute_iff]
  unfold join
  split
  · next he =>
    rw [String.isEmpty_iff] at he
    subst he
    simpa using h
  · next he =>
    have hne : dir.toList ≠ [] := by
      intro hl
      rw [String.isEmpty_iff] at he
      exact he (String.toList_inj.mp hl)
    obtain ⟨c, rest, hc⟩ := List.exists_cons_of_ne_nil hne
    split <;> simp [hc]

/-- What is written behind a text, without a slash, is written behind the last name. -/
theorem names_append (p : String) : ∃ front last, ∀ s : String, s ≠ "" → '/' ∉ s.toList →
    names (p ++ s) = front ++ [last ++ s] := by
  obtain ⟨front, last, hp, _⟩ := pieces_append p.toList (b := []) (by simp)
  refine ⟨(front.filter (· ≠ [])).map String.ofList, String.ofList last, ?_⟩
  intro s hne hs
  obtain ⟨front', last', hp', happ⟩ := pieces_append p.toList hs
  obtain ⟨rfl, hl⟩ := List.append_inj' (hp.symm.trans hp') rfl
  cases hl
  have hs' : last ++ s.toList ≠ [] := by
    intro h
    exact hne (String.toList_inj.mp (List.append_eq_nil_iff.mp h).2)
  rw [names_eq, namesIn, String.toList_append, happ, List.filter_append, List.map_append]
  simp [hs', String.ofList_append]

/-- A text of more than slashes holds a name. -/
theorem namesIn_ne_nil {l : List Char} {c : Char} (hc : c ∈ l) (hne : c ≠ '/') : namesIn l ≠ [] := by
  induction l with
  | nil => exact absurd hc List.not_mem_nil
  | cons d rest ih =>
    by_cases hd : d = '/'
    · subst hd
      have hslash : namesIn ('/' :: rest) = namesIn [] ++ namesIn rest := namesIn_append_slash [] rest
      rw [hslash]
      exact ih (List.mem_of_ne_of_mem hne hc)
    · rw [namesIn, pieces, if_neg hd]
      split <;> simp

/-- The first name begins where the text begins, unless with a slash. -/
theorem namesIn_cons {c : Char} (hc : c ≠ '/') (l : List Char) :
    ∃ first rest, namesIn (c :: l) = first :: rest ∧ first.toList.head? = some c := by
  rw [namesIn, pieces, if_neg hc]
  cases hp : pieces l with
  | nil => exact absurd hp (pieces_ne_nil l)
  | cons piece others =>
    refine ⟨String.ofList (c :: piece), (others.filter (· ≠ [])).map String.ofList, by simp, ?_⟩
    rw [String.toList_ofList]
    rfl

/-- A slash between other letters stands between two names. -/
theorem names_of_slash_mem {name : String} {c d : Char} (hfirst : name.toList.head? = some c)
    (hc : c ≠ '/') (hlast : name.toList.getLast? = some d) (hd : d ≠ '/') (hs : '/' ∈ name.toList) :
    ∃ first second rest, names name = first :: second :: rest := by
  obtain ⟨a, b, hab⟩ := List.append_of_mem hs
  rw [names_eq, hab, namesIn_append_slash]
  rw [hab] at hfirst hlast
  -- the first letter stands before the slash, and the last one behind it
  have ha : namesIn a ≠ [] := by
    cases a with
    | nil => exact absurd (Option.some.inj hfirst).symm hc
    | cons x a =>
      cases Option.some.inj hfirst
      exact namesIn_ne_nil List.mem_cons_self hc
  have hb : namesIn b ≠ [] := by
    cases b with
    | nil =>
      rw [List.getLast?_concat] at hlast
      exact absurd (Option.some.inj hlast).symm hd
    | cons x b =>
      rw [List.getLast?_append, List.getLast?_cons_cons] at hlast
      refine namesIn_ne_nil (List.mem_of_getLast? ?_) hd
      simpa using hlast
  obtain ⟨first, front, hf⟩ := List.exists_cons_of_ne_nil ha
  obtain ⟨second, back, hs⟩ := List.exists_cons_of_ne_nil hb
  rw [hf, hs]
  cases front with
  | nil => exact ⟨first, second, back, rfl⟩
  | cons x front => exact ⟨first, x, front ++ second :: back, rfl⟩

/-- No piece holds a slash, so that names put together by slashes are read back. -/
theorem slash_not_mem_pieces {l piece : List Char} (h : piece ∈ pieces l) : '/' ∉ piece := by
  induction l generalizing piece with
  | nil =>
    cases List.mem_singleton.mp h
    exact List.not_mem_nil
  | cons c rest ih =>
    rw [pieces] at h
    split at h
    · rcases List.mem_cons.mp h with rfl | h
      · exact List.not_mem_nil
      · exact ih h
    · next hc =>
      split at h
      · cases List.mem_singleton.mp h
        simpa using Ne.symm hc
      · next hp =>
        rw [hp] at ih
        rcases List.mem_cons.mp h with rfl | h
        · have := ih List.mem_cons_self
          simp [Ne.symm hc, this]
        · exact ih (List.mem_cons_of_mem _ h)

theorem slash_not_mem_names {p : Path} {name : String} (h : name ∈ p.names) : '/' ∉ name.toList := by
  obtain ⟨piece, hp, rfl⟩ := List.mem_map.mp h
  rw [String.toList_ofList]
  exact slash_not_mem_pieces (List.mem_filter.mp hp).1

structure EndsAt (p : Path) (name : String) : Prop where
  names : ∃ front, p.names = front ++ [name]
  ne_here : name ≠ "."
  ne_above : name ≠ ".."

theorem EndsAt.slash_not_mem {p : Path} {name : String} (h : p.EndsAt name) : '/' ∉ name.toList := by
  obtain ⟨front, hf⟩ := h.names
  exact slash_not_mem_names (p := p) (by simp [hf])

theorem EndsAt.unique {p : Path} {a b : String} (h : p.EndsAt a) (k : p.EndsAt b) : a = b := by
  obtain ⟨front, hf⟩ := h.names
  obtain ⟨back, hb⟩ := k.names
  exact List.singleton_inj.mp (List.append_inj_right' (hf.symm.trans hb) rfl)

/-- What is written behind a path, when it is longer than a pair of dots, makes its last name one of its
own. -/
theorem endsAt_append (p : Path) : ∃ last, ∀ s : String, 2 < s.length → '/' ∉ s.toList →
    EndsAt (p ++ s) (last ++ s) := by
  obtain ⟨front, last, h⟩ := names_append p
  refine ⟨last, ?_⟩
  intro s hs hslash
  -- the names that mean a directory itself or the one above are shorter
  have hne : ∀ t : String, t.length ≤ 2 → last ++ s ≠ t := by
    rintro t ht rfl
    rw [String.length_append] at ht
    omega
  refine ⟨⟨front, h s ?_ hslash⟩, hne _ (by decide), hne _ (by decide)⟩
  rintro rfl
  exact absurd hs (by decide)

/-- A path put together ends with the name that was joined; one or two characters might be dots, longer names
are not. -/
theorem endsAt_join (dir : Path) {name : String} (h : '/' ∉ name.toList) (hn : 2 < name.length) :
    (join dir name).EndsAt name := by
  have hne : ∀ t : String, t.length ≤ 2 → name ≠ t := by
    rintro t ht rfl
    omega
  have hnil : name.toList ≠ [] := fun he => hne "" (by decide) (String.toList_inj.mp he)
  refine ⟨⟨dir.names, ?_⟩, hne _ (by decide), hne _ (by decide)⟩
  rw [names_join, names_eq name, namesIn, pieces_of_not_mem h]
  simp [hnil]

def Apart (p q : Path) : Prop := ∃ a b, p.EndsAt a ∧ q.EndsAt b ∧ a ≠ b

theorem Apart.symm {p q : Path} : p.Apart q → q.Apart p := fun ⟨a, b, hp, hq, h⟩ => ⟨b, a, hq, hp, h.symm⟩

theorem apart_append {p q : Path} {s t : String} (hs : 2 < s.length) (ht : 2 < t.length)
    (hs' : '/' ∉ s.toList) (ht' : '/' ∉ t.toList) (h : ∀ a b : String, a ++ s ≠ b ++ t) :
    Apart (p ++ s) (q ++ t) := by
  obtain ⟨a, ha⟩ := endsAt_append p
  obtain ⟨b, hb⟩ := endsAt_append q
  exact ⟨a ++ s, b ++ t, ha s hs hs', hb t ht ht', h a b⟩

end OracleDuty.Path
