import Mathlib.Data.List.Infix
import Mathlib.Data.List.TakeWhile
import OracleDuty.Url.Reader
/-!
A locator that is read from a text ends with the last word of that text, wherever the word comes to stand:
in the path, in the query or in the fragment. So texts with different words at their ends lead to different
locators.

Main statement: `IsPath.endsWith`.
-/
namespace OracleDuty.Url

/-! ### Plain words -/

def isPlain (c : Char) : Bool := c.isLower || c == '_'

/-- Words of a path are of these characters and of digits and hyphens; none of them is a dot. -/
def isWord (c : Char) : Bool := isPlain c || c.isDigit || c == '-'

def isClear (c : Char) : Bool := decide (0x20 < c.toNat) && !([':', '?', '#'].contains c)

variable {c : Char} {l path word : List Char} {escaped isMark : Char → Bool}

theorem isPlain_bounds (h : isPlain c = true) : 0x5F ≤ c.toNat ∧ c.toNat ≤ 0x7A := by
  rcases Bool.or_eq_true_iff.mp h with h | h
  · have hlower := Bool.and_eq_true_iff.mp h
    have hlow : 0x61 ≤ c.toNat := UInt32.le_iff_toNat_le.mp (of_decide_eq_true hlower.1)
    have hhigh : c.toNat ≤ 0x7A := UInt32.le_iff_toNat_le.mp (of_decide_eq_true hlower.2)
    omega
  · rw [beq_iff_eq.mp h]
    decide

/-- A character of a kind is not among marks that are all of another kind. -/
theorem not_mem_marks {kind : Char → Bool} {marks : List Char} (hmarks : marks.any kind = false)
    (h : kind c = true) : c ∉ marks :=
  fun hc => List.any_eq_false.mp hmarks c hc h

theorem contains_eq_false {kind : Char → Bool} (h : kind c = true) {marks : String}
    (hmarks : marks.toList.any kind = false) : marks.contains c = false := by
  rw [String.contains_char_eq, decide_eq_false_iff_not]
  exact not_mem_marks hmarks h

/-- A character of a kind is no mark of another kind. -/
theorem beq_mark_eq_false {kind : Char → Bool} (h : kind c = true) {mark : Char} (hmark : kind mark = false) :
    (c == mark) = false := by
  rw [beq_eq_false_iff_ne]
  rintro rfl
  rw [hmark] at h
  cases h

/-- A character that is neither of two marks. -/
theorem neither_of_not_mem {a b : Char} (h : c ∉ [a, b]) : (c == a || c == b) = false := by
  obtain ⟨ha, hb⟩ : c ≠ a ∧ c ≠ b := by simpa using h
  rw [beq_eq_false_iff_ne.mpr ha, beq_eq_false_iff_ne.mpr hb]
  rfl

theorem isControl_of_isPlain (h : isPlain c = true) : isControl c = false := by
  have hbounds := isPlain_bounds h
  rw [isControl, Bool.or_eq_false_iff]
  refine ⟨decide_eq_false ?_, decide_eq_false ?_⟩ <;> omega

theorem escapedInFragment_of_isPlain (h : isPlain c = true) : escapedInFragment c = false := by
  rw [escapedInFragment, isControl_of_isPlain h, contains_eq_false h rfl]
  rfl

theorem escapedInPath_of_isPlain (h : isPlain c = true) : escapedInPath c = false := by
  rw [escapedInPath, escapedInFragment_of_isPlain h, contains_eq_false h rfl]
  rfl

theorem escapedInQuery_of_isPlain (special : Bool) (h : isPlain c = true) :
    escapedInQuery special c = false := by
  have hquote : (c == Char.ofNat 39) = false := beq_mark_eq_false h rfl
  rw [escapedInQuery, isControl_of_isPlain h, contains_eq_false h rfl, hquote,
    Bool.and_false]
  rfl

theorem isWord_of_isPlain (h : isPlain c = true) : isWord c = true := by
  rw [isWord, h]
  rfl

/-- Only capitals have small letters. -/
theorem toLower_eq_self (h : c.toNat < 0x41 ∨ 0x5A < c.toNat) : c.toLower = c := by
  have hupper : ¬(c.val ≥ 'A'.val ∧ c.val ≤ 'Z'.val) := by
    intro hupper
    have hlow : 0x41 ≤ c.toNat := UInt32.le_iff_toNat_le.mp hupper.1
    have hhigh : c.toNat ≤ 0x5A := UInt32.le_iff_toNat_le.mp hupper.2
    omega
  exact dif_neg hupper

theorem map_toLower_eq_self {cs : List Char} (h : ∀ c ∈ cs, c.toNat < 0x41 ∨ 0x5A < c.toNat) :
    cs.map Char.toLower = cs := by
  have hmap := List.map_congr_left fun c hc => toLower_eq_self (h c hc)
  rwa [List.map_id'] at hmap

theorem isDigit_bounds (h : c.isDigit = true) : 0x30 ≤ c.toNat ∧ c.toNat ≤ 0x39 := by
  have hdigit := Bool.and_eq_true_iff.mp h
  exact ⟨UInt32.le_iff_toNat_le.mp (of_decide_eq_true hdigit.1),
    UInt32.le_iff_toNat_le.mp (of_decide_eq_true hdigit.2)⟩

theorem isWord_bounds (h : isWord c = true) :
    0x2D ≤ c.toNat ∧ c.toNat ≤ 0x39 ∨ 0x5F ≤ c.toNat ∧ c.toNat ≤ 0x7A := by
  simp only [isWord, Bool.or_eq_true] at h
  rcases h with (h | h) | h
  · exact .inr (isPlain_bounds h)
  · have hbounds := isDigit_bounds h
    omega
  · rw [beq_iff_eq.mp h]
    decide

/-- A word is none of the texts that stand for a directory. -/
theorem map_toLower_ne (h : ∀ c ∈ word, isWord c = true) (dots : String)
    (hdots : dots.toList.all isWord = false) : (String.ofList word).map Char.toLower ≠ dots := by
  have hword : word.map Char.toLower = word := by
    apply map_toLower_eq_self
    intro c hc
    have hbounds := isWord_bounds (h c hc)
    omega
  rintro rfl
  rw [String.toList_map, String.toList_ofList, hword, List.all_eq_true.mpr h] at hdots
  cases hdots

/-! ### The ends of texts -/

theorem splitAtAny_of_forall (h : ∀ c ∈ l, isMark c = false) : splitAtAny isMark l = (l, []) := by
  have hnot : ∀ c ∈ l, (!isMark c) = true := by
    intro c hc
    rw [h c hc]
    rfl
  rw [splitAtAny, List.span_eq_takeWhile_dropWhile, List.takeWhile_eq_self_iff.mpr hnot,
    List.dropWhile_eq_nil_iff.mpr hnot]

/-- A text is split at the first mark. -/
theorem splitAtAny_append (hword : ∀ c ∈ word, isMark c = false) (hmark : isMark c = true) (l : List Char) :
    splitAtAny isMark (word ++ c :: l) = (word, c :: l) := by
  induction word with
  | nil => simp [splitAtAny, List.span_eq_takeWhile_dropWhile, hmark]
  | cons d word ih =>
    have hrest := ih fun d hd => hword d (List.mem_cons_of_mem _ hd)
    have hd := hword d List.mem_cons_self
    simp only [splitAtAny, List.span_eq_takeWhile_dropWhile] at hrest ⊢
    rw [List.cons_append, List.takeWhile_cons_of_pos (by simp [hd]), List.dropWhile_cons_of_pos (by simp [hd]),
      (Prod.mk.inj hrest).1, (Prod.mk.inj hrest).2]

/-- What is split off at a mark keeps an end without marks. -/
theorem splitAtAny_end (isMark : Char → Bool) (h : word <:+ l) (hword : ∀ c ∈ word, isMark c = false) :
    splitAtAny isMark l = (l, []) ∨
      ∃ front mark rest, splitAtAny isMark l = (front, mark :: rest) ∧ isMark mark = true ∧
        word <:+ rest := by
  unfold splitAtAny
  rw [List.span_eq_takeWhile_dropWhile]
  cases hd : l.dropWhile fun c => !isMark c with
  | nil =>
    have ht := List.takeWhile_append_dropWhile (p := fun c => !isMark c) (l := l)
    rw [hd, List.append_nil] at ht
    rw [ht]
    exact .inl rfl
  | cons mark rest =>
    have hmark : isMark mark = true := by
      have hhead := List.head?_dropWhile_not (fun c => !isMark c) l
      rw [hd] at hhead
      simpa using hhead
    have hsuffix : mark :: rest <:+ l := by
      rw [← hd]
      exact List.dropWhile_suffix _
    refine .inr ⟨_, mark, rest, rfl, hmark, ?_⟩
    -- the mark is not in the word, so that the word begins behind it
    have hnot : ¬mark :: rest <:+ word := by
      intro hw
      have hmem : mark ∈ word := hw.subset List.mem_cons_self
      rw [hword mark hmem] at hmark
      cases hmark
    rcases List.suffix_or_suffix_of_suffix h hsuffix with hs | hs
    · rcases List.suffix_cons_iff.mp hs with rfl | hs
      · exact absurd (List.suffix_refl _) hnot
      · exact hs
    · exact absurd hs hnot

/-- What is dropped in front does not reach a word that stands at the end. -/
theorem suffix_dropWhile {p : Char → Bool} (h : c :: word <:+ l) (hc : p c = false) :
    c :: word <:+ l.dropWhile p := by
  obtain ⟨front, rfl⟩ := h
  have hword : (c :: word).dropWhile p = c :: word := by
    rw [List.dropWhile_cons, hc]
    rfl
  rw [List.dropWhile_append, hword]
  split
  · exact List.suffix_refl _
  · exact List.suffix_append _ _

/-- Nothing is dropped at the back of a text whose end is not to be dropped. -/
theorem reverse_dropWhile_reverse {p : Char → Bool} (h : word <:+ l) (hne : word ≠ [])
    (hword : ∀ c ∈ word, p c = false) : (l.reverse.dropWhile p).reverse = l := by
  obtain ⟨front, rfl⟩ := h
  obtain rfl | ⟨word, last, rfl⟩ := List.eq_nil_or_concat' word
  · exact absurd rfl hne
  · have hlast : p last = false := hword last (by simp)
    rw [← List.append_assoc, List.reverse_append, List.reverse_singleton, List.singleton_append,
      List.dropWhile_cons, hlast]
    simp

/-- A word without characters to escape is left as it is. -/
theorem toList_escape (h : ∀ c ∈ word, escaped c = false) : (escape escaped word).toList = word := by
  have hself : ∀ c ∈ word, (if escaped c then
      (Bytes.ofString (String.singleton c)).flatMap fun b =>
        ['%', upperDigit (b.toNat / 16), upperDigit (b.toNat % 16)]
      else [c]) = [c] := by
    intro c hc
    rw [h c hc]
    rfl
  rw [escape, String.toList_ofList, List.flatMap_congr hself]
  exact List.flatMap_singleton' word

theorem suffix_escape (h : word <:+ l) (hword : ∀ c ∈ word, escaped c = false) :
    word <:+ (escape escaped l).toList := by
  obtain ⟨front, rfl⟩ := h
  have happend : (escape escaped (front ++ word)).toList =
      (escape escaped front).toList ++ (escape escaped word).toList := by
    simp only [escape, String.toList_ofList, List.flatMap_append]
  rw [happend, toList_escape hword]
  exact List.suffix_append _ _

/-! ### Paths -/

theorem splitOn_word (hword : ∀ c ∈ word, isMark c = false) : splitOn isMark word = [word] := by
  induction word with
  | nil => rfl
  | cons c word ih =>
    have hrest := ih fun d hd => hword d (List.mem_cons_of_mem _ hd)
    have hc := hword c List.mem_cons_self
    simp only [splitOn, hc, hrest, Bool.false_eq_true, if_false]

theorem splitOn_piece (hmark : isMark c = true) (hword : ∀ c ∈ word, isMark c = false) (l : List Char) :
    splitOn isMark (word ++ c :: l) = word :: splitOn isMark l := by
  induction word with
  | nil => simp only [List.nil_append, splitOn, hmark, if_true]
  | cons d word ih =>
    have hrest := ih fun d hd => hword d (List.mem_cons_of_mem _ hd)
    have hd := hword d List.mem_cons_self
    simp only [List.cons_append, splitOn, hd, hrest, Bool.false_eq_true, if_false]

/-- What follows the last mark is the last piece. -/
theorem splitOn_append (front : List Char) (mark : Char) (hmark : isMark mark = true)
    (hword : ∀ c ∈ word, isMark c = false) :
    ∃ pieces, pieces ≠ [] ∧ splitOn isMark (front ++ mark :: word) = pieces ++ [word] := by
  induction front with
  | nil =>
    refine ⟨[[]], by simp, ?_⟩
    simp only [List.nil_append, splitOn, hmark, if_true, splitOn_word hword, List.cons_append]
  | cons c front ih =>
    obtain ⟨pieces, hne, hpieces⟩ := ih
    cases hc : isMark c with
    | true =>
      refine ⟨[] :: pieces, by simp, ?_⟩
      simp only [List.cons_append, splitOn, hc, if_true, hpieces]
    | false =>
      obtain ⟨piece, pieces, rfl⟩ := List.exists_cons_of_ne_nil hne
      refine ⟨(c :: piece) :: pieces, by simp, ?_⟩
      simp only [List.cons_append, splitOn, hc, hpieces, Bool.false_eq_true, if_false]

/-- A last segment that stands for no directory stays where it is. -/
theorem resolveDots_append (above segments : List String) {segment : String}
    (hdot : isDot segment = false) (hdouble : isDoubleDot segment = false) :
    ∃ front, resolveDots above (segments ++ [segment]) = front ++ [segment] := by
  induction segments generalizing above with
  | nil =>
    refine ⟨above.reverse, ?_⟩
    simp [resolveDots, hdot, hdouble]
  | cons first rest ih =>
    rw [List.cons_append, resolveDots]
    split
    · exact ih _
    split
    · exact ih _
    · exact ih _

theorem isDot_ofList (h : ∀ c ∈ word, isWord c = true) : isDot (String.ofList word) = false := by
  have hdots := map_toLower_ne h
  rw [isDot, List.contains_eq_mem, decide_eq_false_iff_not]
  simp only [List.mem_cons, List.not_mem_nil, or_false, not_or]
  exact ⟨hdots _ rfl, hdots _ rfl⟩

theorem isDoubleDot_ofList (h : ∀ c ∈ word, isWord c = true) :
    isDoubleDot (String.ofList word) = false := by
  have hdots := map_toLower_ne h
  rw [isDoubleDot, List.contains_eq_mem, decide_eq_false_iff_not]
  simp only [List.mem_cons, List.not_mem_nil, or_false, not_or]
  exact ⟨hdots _ rfl, hdots _ rfl, hdots _ rfl, hdots _ rfl⟩

/-- The path of a text ends with the word after the last slash. -/
theorem suffix_segmentsOf (special : Bool) (h : '/' :: word <:+ l) (hplain : ∀ c ∈ word, isPlain c = true) :
    word <:+ (Path.segments (segmentsOf special l)).text.toList := by
  have hmark : ∀ c ∈ word, (c == '/' || (special && c == '\\')) = false := by
    intro c hc
    have hbounds := isPlain_bounds (hplain c hc)
    have hslash : c ≠ '/' := by
      rintro rfl
      exact absurd hbounds (by decide)
    have hback : c ≠ '\\' := by
      rintro rfl
      exact absurd hbounds (by decide)
    simp [hslash, hback]
  -- the word is the last piece, whether another one stands before it or not
  have hpieces : ∃ pieces, splitOn (fun c => c == '/' || (special && c == '\\')) l.tail =
      pieces ++ [word] := by
    obtain ⟨front, rfl⟩ := h
    cases front with
    | nil => exact ⟨[], splitOn_word hmark⟩
    | cons c front =>
      obtain ⟨pieces, _, hp⟩ := splitOn_append front '/' rfl hmark
      exact ⟨pieces, hp⟩
  obtain ⟨pieces, hpieces⟩ := hpieces
  have hself : escape escapedInPath word = String.ofList word := by
    apply String.toList_inj.mp
    rw [toList_escape fun c hc => escapedInPath_of_isPlain (hplain c hc), String.toList_ofList]
  have hword : ∀ c ∈ word, isWord c = true := fun c hc => isWord_of_isPlain (hplain c hc)
  obtain ⟨front, hfront⟩ := resolveDots_append [] (pieces.map (escape escapedInPath))
    (isDot_ofList hword) (isDoubleDot_ofList hword)
  have hsegments : segmentsOf special l = front ++ [String.ofList word] := by
    rw [segmentsOf, hpieces, List.map_append, List.map_singleton, hself, hfront]
  have hlast : (String.ofList word).toList = word := String.toList_ofList
  rw [hsegments, Path.text, List.map_append, String.join_append, String.toList_append, List.map_singleton,
    String.join_cons, String.join_nil, String.append_empty, String.toList_append, hlast,
    ← List.append_assoc]
  exact List.suffix_append _ _

/-- What stands from the first slash on is the path of a text with an authority. -/
theorem suffix_located (special : Bool) {isSlash : Char → Bool} (hslash : isSlash '/' = true)
    (h : '/' :: word <:+ l) (hplain : ∀ c ∈ word, isPlain c = true) :
    word <:+ (Path.segments (if (splitAtAny isSlash l).2.isEmpty && !special then []
      else segmentsOf special (splitAtAny isSlash l).2)).text.toList := by
  have hrest : '/' :: word <:+ (splitAtAny isSlash l).2 := by
    unfold splitAtAny
    rw [List.span_eq_takeWhile_dropWhile]
    apply suffix_dropWhile h
    rw [hslash]
    rfl
  have hne : (splitAtAny isSlash l).2.isEmpty = false := by
    rw [List.isEmpty_eq_false_iff]
    intro hnil
    rw [hnil] at hrest
    cases List.suffix_nil.mp hrest
  rw [hne]
  exact suffix_segmentsOf special hrest hplain

/-! ### Locators -/

structure IsPath (path word : List Char) : Prop where
  nested : ∃ c middle, isPlain c = true ∧ path = c :: (middle ++ '/' :: word)
  clear : ∀ c ∈ path, isClear c = true
  plain : ∀ c ∈ word, isPlain c = true

namespace IsPath

variable (hp : IsPath path word)

include hp

theorem slash_suffix : '/' :: word <:+ path := by
  obtain ⟨c, middle, _, rfl⟩ := hp.nested
  exact (List.suffix_append _ _).trans (List.suffix_cons _ _)

theorem ne_nil : path ≠ [] := by
  obtain ⟨c, middle, _, rfl⟩ := hp.nested
  exact List.cons_ne_nil _ _

theorem word_suffix : word <:+ path := (List.suffix_cons _ _).trans hp.slash_suffix

/-- What is cut off at the front does not belong to the path unless it is plain. -/
theorem suffix_of_cons {a : Char} (h : path <:+ a :: l) (ha : isPlain a = false) : path <:+ l := by
  obtain ⟨c, middle, hc, rfl⟩ := hp.nested
  rcases List.suffix_cons_iff.mp h with he | hs
  · cases he
    rw [hc] at ha
    cases ha
  · exact hs

/-- However the authority is read, the path keeps the word that the text ends with. -/
theorem suffix_hierarchy {scheme : String} {parts : Option Authority × Path} (h : path <:+ l)
    (hl : hierarchy? scheme l = some parts) : word <:+ parts.2.text.toList := by
  unfold hierarchy? at hl
  simp only [Option.bind_eq_bind] at hl
  set isSlash : Char → Bool := fun c => c == '/' || isSpecial scheme && c == '\\' with hdef
  have hslash : isSlash '/' = true := rfl
  have hplain : ∀ c, isSlash c = true → isPlain c = false := by
    intro c hc
    rcases Bool.or_eq_true_iff.mp hc with hc | hc
    · rw [beq_iff_eq.mp hc]
      decide
    · rw [beq_iff_eq.mp (Bool.and_eq_true_iff.mp hc).2]
      decide
  split at hl
  · -- slashes after the scheme are skipped
    obtain ⟨c, middle, hc, rfl⟩ := hp.nested
    have hfirst : isSlash c = false := by
      by_contra hs
      rw [hplain c (Bool.not_eq_false _ ▸ hs)] at hc
      cases hc
    have hskip := suffix_dropWhile h hfirst
    obtain ⟨authority, _, hparts⟩ := Option.bind_eq_some_iff.mp hl
    cases hparts
    exact suffix_located _ hslash (hp.slash_suffix.trans hskip) hp.plain
  split at hl
  · next a b rest =>
    split at hl
    · next hab =>
      obtain ⟨ha, hb⟩ := Bool.and_eq_true_iff.mp hab
      have hrest := hp.suffix_of_cons (hp.suffix_of_cons h (hplain a ha)) (hplain b hb)
      obtain ⟨authority, _, hparts⟩ := Option.bind_eq_some_iff.mp hl
      cases hparts
      exact suffix_located _ hslash (hp.slash_suffix.trans hrest) hp.plain
    split at hl
    · cases hl
      apply suffix_segmentsOf _ _ hp.plain
      split
      · exact hp.slash_suffix.trans h
      · exact (hp.slash_suffix.trans h).trans (List.suffix_cons _ _)
    · cases hl
      exact suffix_escape (hp.word_suffix.trans h) fun c hc => isControl_of_isPlain (hp.plain c hc)
  · next hshort =>
    -- the path alone has two characters and more
    obtain ⟨c, middle, _, rfl⟩ := hp.nested
    have hlength := h.length_le
    match l, hshort with
    | [], _ => simp at hlength
    | [_], _ => simp at hlength
    | a :: b :: rest, hshort => exact absurd rfl (hshort a b rest)

theorem not_mark (mark : Char) (hmark : isClear mark = false) : ∀ c ∈ path, (c == mark) = false :=
  fun c hc => beq_mark_eq_false (hp.clear c hc) hmark

/-- Neither what is trimmed around a text nor what is dropped within it belongs to the path. -/
theorem suffix_trimmed {isEdge isDropped : Char → Bool} (h : path <:+ l)
    (hedge : ∀ c ∈ path, isEdge c = false) (hdropped : ∀ c ∈ path, isDropped c = false) :
    path <:+ (((l.dropWhile isEdge).reverse.dropWhile isEdge).reverse).filter fun c => !isDropped c := by
  have hfront : path <:+ l.dropWhile isEdge := by
    obtain ⟨c, middle, _, rfl⟩ := hp.nested
    exact suffix_dropWhile h (hedge c List.mem_cons_self)
  rw [reverse_dropWhile_reverse hfront hp.ne_nil hedge]
  have hself : path.filter (fun c => !isDropped c) = path := by
    apply List.filter_eq_self.mpr
    intro d hd
    rw [hdropped d hd]
    rfl
  have hfilter := hfront.filter fun c => !isDropped c
  rwa [hself] at hfilter

/-- The scheme stands before the path. -/
theorem suffix_scheme {rest : List Char} {scheme : String} (h : path <:+ l)
    (hl : scheme? l = some (scheme, rest)) : path <:+ rest := by
  unfold scheme? at hl
  rcases splitAtAny_end (· == ':') h (hp.not_mark _ rfl) with hsplit | ⟨name, mark, rest', hsplit, _, hrest⟩
  · rw [hsplit] at hl
    cases l <;> cases hl
  · rw [hsplit] at hl
    cases name with
    | nil => cases hl
    | cons first others =>
      simp only at hl
      split at hl
      · cases hl
        exact hrest
      · cases hl

end IsPath

/-! ### The text of a locator -/

theorem suffix_text_of_path {u : Url} (h : word <:+ u.path.text.toList) (hq : u.query = none)
    (hf : u.fragment = none) : word <:+ u.text.toList := by
  simp only [text, target, hq, hf, String.append_empty, String.toList_append]
  exact List.suffix_append_of_suffix h

theorem suffix_text_of_query {u : Url} {q : String} (h : word <:+ q.toList) (hq : u.query = some q)
    (hf : u.fragment = none) : word <:+ u.text.toList := by
  simp only [text, target, hq, hf, String.append_empty, String.toList_append]
  iterate 3 apply List.suffix_append_of_suffix
  exact h

theorem suffix_text_of_fragment {u : Url} {f : String} (h : word <:+ f.toList)
    (hf : u.fragment = some f) : word <:+ u.text.toList := by
  simp only [text, hf, String.toList_append]
  iterate 2 apply List.suffix_append_of_suffix
  exact h

/-- What is read from a text that ends with a path ends with the last word of the path. -/
theorem IsPath.endsWith (hp : IsPath path word) {s : String} {u : Url} (h : path <:+ s.toList)
    (hu : ofText? s = some u) : word <:+ u.text.toList := by
  unfold ofText? at hu
  simp only [Option.bind_eq_bind, Option.bind_eq_some_iff] at hu
  obtain ⟨⟨scheme, rest⟩, hscheme, ⟨authority, p⟩, hl, hu⟩ := hu
  have hedge : ∀ c ∈ path, decide (c.toNat ≤ 0x20) = false := by
    intro c hc
    have hclear := (Bool.and_eq_true_iff.mp (hp.clear c hc)).1
    simpa using hclear
  have hdropped : ∀ c ∈ path, (c == '\t' || c == '\n' || c == '\r') = false := by
    intro c hc
    rw [hp.not_mark '\t' rfl c hc, hp.not_mark '\n' rfl c hc, hp.not_mark '\r' rfl c hc]
    rfl
  have hrest := hp.suffix_scheme (hp.suffix_trimmed h hedge hdropped) hscheme
  cases hu
  rcases splitAtAny_end (· == '#') hrest (hp.not_mark _ rfl) with hsplit | ⟨front, mark, f, hsplit, hmark, hf⟩
  · rw [hsplit] at hl ⊢
    rcases splitAtAny_end (· == '?') hrest (hp.not_mark _ rfl) with hsplit | ⟨front, mark, q, hsplit, hmark, hq⟩
    · rw [hsplit] at hl ⊢
      exact suffix_text_of_path (hp.suffix_hierarchy hrest hl) rfl rfl
    · rw [hsplit, beq_iff_eq.mp hmark]
      have hquery := suffix_escape (hp.word_suffix.trans hq) fun c hc =>
        escapedInQuery_of_isPlain (isSpecial scheme) (hp.plain c hc)
      exact suffix_text_of_query hquery rfl rfl
  · rw [hsplit, beq_iff_eq.mp hmark]
    have hfragment := suffix_escape (hp.word_suffix.trans hf) fun c hc =>
      escapedInFragment_of_isPlain (hp.plain c hc)
    exact suffix_text_of_fragment hfragment rfl

end OracleDuty.Url
