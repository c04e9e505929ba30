import OracleDuty.Proofs.Url.Host
/-!
The locators of web services: each one that was read is read again from its own text. What was escaped is not escaped
again, no dots are left to be resolved, and user, host and port stay apart.

Main statements: `isCanonical_of_ofText?` and `IsCanonical.ofText?_text`.
-/
namespace OracleDuty.Url

variable {c : Char} {l : List Char} {escaped isMark : Char → Bool} {s : String} {texts : List String}

/-! ### Escaped texts -/

def isEscape (c : Char) : Bool := "%0123456789ABCDEF".toList.contains c

theorem isEscape_upperDigit {n : Nat} (h : n < 16) : isEscape (upperDigit n) = true := by
  have hall : ∀ n < 16, isEscape (upperDigit n) = true := by decide
  exact hall n h

/-- Of the characters that are escaped none is left. -/
theorem mem_escape (h : c ∈ (escape escaped l).toList) : isEscape c = true ∨ (c ∈ l ∧ escaped c = false) := by
  rw [escape, String.toList_ofList] at h
  obtain ⟨d, hd, hc⟩ := List.mem_flatMap.mp h
  cases he : escaped d with
  | true =>
    rw [he, if_pos rfl] at hc
    obtain ⟨b, _, hb⟩ := List.mem_flatMap.mp hc
    have hlt := b.toNat_lt
    simp only [List.mem_cons, List.not_mem_nil, or_false] at hb
    rcases hb with rfl | rfl | rfl
    · exact .inl (by decide)
    · exact .inl (isEscape_upperDigit (by omega))
    · exact .inl (isEscape_upperDigit (by omega))
  | false =>
    rw [he] at hc
    obtain rfl : c = d := List.mem_singleton.mp hc
    exact .inr ⟨hd, he⟩

/-- What stands in an escaped text is not escaped again. -/
theorem not_escaped_of_mem_escape (hescape : ∀ {c}, isEscape c = true → escaped c = false)
    (h : c ∈ (escape escaped l).toList) : escaped c = false := by
  rcases mem_escape h with hc | ⟨_, hc⟩
  · exact hescape hc
  · exact hc

theorem escape_eq (h : ∀ c ∈ s.toList, escaped c = false) : escape escaped s.toList = s :=
  String.toList_inj.mp (toList_escape h)

theorem escapedInPath_iff : escapedInPath c = false ↔
    0x1F < c.toNat ∧ c.toNat ≤ 0x7E ∧ c ∉ " \"<>\x60".toList ∧ c ∉ "#?\x7b\x7d".toList := by
  simp only [escapedInPath, escapedInFragment, isControl, String.contains_char_eq, Bool.or_eq_false_iff,
    decide_eq_false_iff_not, not_le, not_lt, and_assoc]

theorem visible_of_escapedInPath (h : escapedInPath c = false) : 0x20 < c.toNat := by
  obtain ⟨hlow, _, hblank, _⟩ := escapedInPath_iff.mp h
  have hne : c.toNat ≠ 0x20 := by
    intro hc
    have hspace : c = ' ' := Char.toNat_inj.mp hc
    rw [hspace] at hblank
    exact hblank (by decide)
  omega

theorem escapedInUserInfo_iff : escapedInUserInfo c = false ↔
    escapedInPath c = false ∧ c ∉ "/:;=@[\\]^|".toList := by
  rw [escapedInUserInfo, Bool.or_eq_false_iff, String.contains_char_eq, decide_eq_false_iff_not]

theorem isEscape_bounds (h : isEscape c = true) : 0x1F < c.toNat ∧ c.toNat ≤ 0x7E := by
  have hall : "%0123456789ABCDEF".toList.all (fun c => decide (0x1F < c.toNat ∧ c.toNat ≤ 0x7E)) = true := rfl
  exact of_decide_eq_true (List.all_eq_true.mp hall c (List.contains_iff_mem.mp h))

theorem escapedInUserInfo_of_isEscape (h : isEscape c = true) : escapedInUserInfo c = false := by
  obtain ⟨hlow, hhigh⟩ := isEscape_bounds h
  have hpath := escapedInPath_iff.mpr ⟨hlow, hhigh, not_mem_marks rfl h, not_mem_marks rfl h⟩
  exact escapedInUserInfo_iff.mpr ⟨hpath, not_mem_marks rfl h⟩

theorem escapedInPath_of_isEscape (h : isEscape c = true) : escapedInPath c = false :=
  (escapedInUserInfo_iff.mp (escapedInUserInfo_of_isEscape h)).1

/-! ### Segments -/

def isSlash (c : Char) : Bool := c == '/' || c == '\\'

theorem isSlash_of_not_mem (h : c ∉ ['/', '\\']) : isSlash c = false := neither_of_not_mem h

structure IsSegment (s : String) : Prop where
  kept : ∀ c ∈ s.toList, escapedInPath c = false
  whole : ∀ c ∈ s.toList, isSlash c = false
  noDot : isDot s = false
  noDoubleDot : isDoubleDot s = false

/-- A word is read as itself, being no dots and holding nothing to escape. -/
theorem isSegment_of_isWord (h : ∀ c ∈ s.toList, isWord c = true) : IsSegment s := by
  constructor
  case kept =>
    intro c hc
    have hbounds := isWord_bounds (h c hc)
    exact escapedInPath_iff.mpr ⟨by omega, by omega, not_mem_marks rfl (h c hc), not_mem_marks rfl (h c hc)⟩
  case whole =>
    exact fun c hc => isSlash_of_not_mem (not_mem_marks rfl (h c hc))
  case noDot =>
    have hdot := isDot_ofList h
    rwa [String.ofList_toList] at hdot
  case noDoubleDot =>
    have hdot := isDoubleDot_ofList h
    rwa [String.ofList_toList] at hdot

theorem isSegment_empty : IsSegment "" := isSegment_of_isWord (List.forall_mem_nil _)

theorem mem_splitOn {piece : List Char} (h : piece ∈ splitOn isMark l) : ∀ c ∈ piece, isMark c = false := by
  induction l generalizing piece with
  | nil =>
    rw [splitOn, List.mem_singleton] at h
    rw [h]
    exact List.forall_mem_nil _
  | cons d l ih =>
    rw [splitOn] at h
    split at h
    · rcases List.mem_cons.mp h with rfl | h
      · exact List.forall_mem_nil _
      · exact ih h
    · next hd =>
      split at h
      · obtain rfl := List.mem_singleton.mp h
        simpa using hd
      · next first pieces hsplit =>
        rw [hsplit] at ih
        rcases List.mem_cons.mp h with rfl | h
        · exact List.forall_mem_cons.mpr ⟨Bool.not_eq_true _ ▸ hd, ih List.mem_cons_self⟩
        · exact ih (List.mem_cons_of_mem _ h)

/-- What is left after dots are resolved: segments that are no dots, and empty ones where dots ended the path. -/
theorem mem_resolveDots {above segments : List String} (h : s ∈ resolveDots above segments) :
    s ∈ above ∨ s = "" ∨ (s ∈ segments ∧ isDot s = false ∧ isDoubleDot s = false) := by
  induction segments generalizing above with
  | nil => exact .inl (List.mem_reverse.mp h)
  | cons segment rest ih =>
    -- dots take segments away, and put an empty one where they end the path
    have hrest : ∀ {above'}, s ∈ resolveDots above' rest → (∀ x ∈ above', x = "" ∨ x ∈ above) →
        s ∈ above ∨ s = "" ∨ (s ∈ segment :: rest ∧ isDot s = false ∧ isDoubleDot s = false) := by
      intro above' hs habove
      rcases ih hs with hs | hs | ⟨hs, hdots⟩
      · rcases habove s hs with hs | hs
        · exact .inr (.inl hs)
        · exact .inl hs
      · exact .inr (.inl hs)
      · exact .inr (.inr ⟨List.mem_cons_of_mem _ hs, hdots⟩)
    rw [resolveDots] at h
    split at h
    · apply hrest h
      intro x hx
      split at hx
      · rcases List.mem_cons.mp hx with hx | hx
        · exact .inl hx
        · exact .inr (List.mem_of_mem_tail hx)
      · exact .inr (List.mem_of_mem_tail hx)
    split at h
    · apply hrest h
      intro x hx
      split at hx
      · exact List.mem_cons.mp hx
      · exact .inr hx
    · next hdouble hdot =>
      rcases ih h with hs | hs | ⟨hs, hdots⟩
      · rcases List.mem_cons.mp hs with rfl | hs
        · exact .inr (.inr ⟨List.mem_cons_self, Bool.not_eq_true _ ▸ hdot, Bool.not_eq_true _ ▸ hdouble⟩)
        · exact .inl hs
      · exact .inr (.inl hs)
      · exact .inr (.inr ⟨List.mem_cons_of_mem _ hs, hdots⟩)

/-- Dots never take the last segment away: what is left of it is empty. -/
theorem resolveDots_ne_nil {segments : List String} (above : List String) (h : above ≠ [] ∨ segments ≠ []) :
    resolveDots above segments ≠ [] := by
  induction segments generalizing above with
  | nil =>
    intro hnil
    exact h.elim (fun h => h (List.reverse_eq_nil_iff.mp hnil)) fun h => h rfl
  | cons segment rest ih =>
    rw [resolveDots]
    split
    · apply ih
      cases rest with
      | nil => exact .inl (List.cons_ne_nil _ _)
      | cons => exact .inr (List.cons_ne_nil _ _)
    split
    · apply ih
      cases rest with
      | nil => exact .inl (List.cons_ne_nil _ _)
      | cons => exact .inr (List.cons_ne_nil _ _)
    · exact ih _ (.inl (List.cons_ne_nil _ _))

theorem splitOn_ne_nil (l : List Char) : splitOn isMark l ≠ [] := by
  cases l with
  | nil => exact List.cons_ne_nil _ _
  | cons c l =>
    rw [splitOn]
    split
    · exact List.cons_ne_nil _ _
    · split <;> exact List.cons_ne_nil _ _

theorem segmentsOf_ne_nil (special : Bool) (l : List Char) : segmentsOf special l ≠ [] := by
  apply resolveDots_ne_nil
  refine .inr fun hnil => splitOn_ne_nil _ (List.map_eq_nil_iff.mp hnil)

/-- The segments of a path that was read are read as themselves. -/
theorem isSegment_of_mem_segmentsOf (h : s ∈ segmentsOf true l) : IsSegment s := by
  rcases mem_resolveDots h with hs | rfl | ⟨hs, hdot, hdouble⟩
  · cases hs
  · exact isSegment_empty
  · obtain ⟨piece, hpiece, rfl⟩ := List.mem_map.mp hs
    refine ⟨?_, ?_, hdot, hdouble⟩
    · intro c hc
      exact not_escaped_of_mem_escape escapedInPath_of_isEscape hc
    · intro c hc
      rcases mem_escape hc with hc | ⟨hc, _⟩
      · exact isSlash_of_not_mem (not_mem_marks rfl hc)
      · exact mem_splitOn hpiece c hc

/-- Segments without dots of their own are left as they are. -/
theorem resolveDots_of_forall (above : List String)
    (h : ∀ s ∈ texts, isDot s = false ∧ isDoubleDot s = false) :
    resolveDots above texts = above.reverse ++ texts := by
  induction texts generalizing above with
  | nil => exact (List.append_nil _).symm
  | cons s texts ih =>
    obtain ⟨⟨hdot, hdouble⟩, hrest⟩ := List.forall_mem_cons.mp h
    rw [resolveDots, hdot, hdouble, if_neg (by decide), if_neg (by decide), ih _ hrest, List.reverse_cons,
      List.append_assoc, List.singleton_append]

/-! ### Paths -/

def pathChars (texts : List String) : List Char := texts.flatMap fun s => '/' :: s.toList

theorem toList_text_segments (texts : List String) : (Path.segments texts).text.toList = pathChars texts := by
  rw [Path.text, pathChars]
  induction texts with
  | nil => rfl
  | cons s texts ih =>
    rw [List.map_cons, String.join_cons, String.toList_append, String.toList_append, ih, List.flatMap_cons]
    rfl

/-- A path is split where its segments were joined. -/
theorem splitOn_pathChars (hwhole : ∀ s ∈ texts, ∀ c ∈ s.toList, isSlash c = false) (hne : texts ≠ []) :
    splitOn isSlash (pathChars texts).tail = texts.map String.toList := by
  induction texts with
  | nil => exact absurd rfl hne
  | cons s rest ih =>
    obtain ⟨hs, hrest⟩ := List.forall_mem_cons.mp hwhole
    cases rest with
    | nil =>
      have hself : (pathChars [s]).tail = s.toList := List.append_nil _
      rw [hself, splitOn_word hs]
      rfl
    | cons s' rest =>
      have hnext : (pathChars (s :: s' :: rest)).tail = s.toList ++ '/' :: (pathChars (s' :: rest)).tail := rfl
      rw [hnext, splitOn_piece rfl hs, ih hrest (List.cons_ne_nil _ _)]
      rfl

/-- A path is read as its segments. -/
theorem segmentsOf_pathChars (h : ∀ s ∈ texts, IsSegment s) (hne : texts ≠ []) :
    segmentsOf true (pathChars texts) = texts := by
  have hsplit := splitOn_pathChars (fun s hs => (h s hs).whole) hne
  have hself : ∀ s ∈ texts, (escape escapedInPath ∘ String.toList) s = s := fun s hs => escape_eq (h s hs).kept
  change resolveDots [] ((splitOn isSlash (pathChars texts).tail).map (escape escapedInPath)) = texts
  rw [hsplit, List.map_map, List.map_congr_left hself, List.map_id',
    resolveDots_of_forall [] fun s hs => ⟨(h s hs).noDot, (h s hs).noDoubleDot⟩]
  rfl

/-! ### Users and ports -/

def IsUserPart (s : String) : Prop := ∀ c ∈ s.toList, escapedInUserInfo c = false

theorem isUserPart_escape (l : List Char) : IsUserPart (escape escapedInUserInfo l) :=
  fun _ hc => not_escaped_of_mem_escape escapedInUserInfo_of_isEscape hc

theorem IsUserPart.noColon (h : IsUserPart s) : ∀ c ∈ s.toList, (c == ':') = false := by
  intro c hc
  have hmarks := (escapedInUserInfo_iff.mp (h c hc)).2
  rw [beq_eq_false_iff_ne]
  rintro rfl
  exact hmarks (by decide)

inductive UserForm : String → Prop where
  | name {name : String} (part : IsUserPart name) (nonempty : name ≠ "") : UserForm name
  | password {name password : String} (part : IsUserPart name) (part' : IsUserPart password)
    (nonempty : password ≠ "") : UserForm (name ++ ":" ++ password)

/-- User info that was read has escaped what would end it. -/
theorem userForm_of_userInfo? {user : String} (h : userInfo? l = some user) : UserForm user := by
  cases l with
  | nil => cases h
  | cons mark l =>
    simp only [userInfo?] at h
    generalize splitAtAny (· == ':') l.reverse = parts at h
    have hname := isUserPart_escape parts.1
    have hpassword := isUserPart_escape parts.2.tail
    generalize escape escapedInUserInfo parts.1 = name at h hname
    generalize escape escapedInUserInfo parts.2.tail = password at h hpassword
    split at h
    · cases h
    · next hsome =>
      -- without a password no colon is written, and a name alone is not empty
      cases hempty : password.isEmpty with
      | true =>
        rw [hempty] at h hsome
        rw [if_pos rfl] at h
        cases h
        refine .name hname fun hnil => hsome ?_
        rw [hnil]
        rfl
      | false =>
        rw [hempty] at h
        cases h
        refine .password hname hpassword fun hnil => ?_
        rw [hnil] at hempty
        cases hempty

theorem isEmpty_eq_false {s : String} (h : s ≠ "") : s.isEmpty = false := by
  rw [← Bool.not_eq_true, String.isEmpty_iff]
  exact h

/-- User info reads back from its text, whatever mark stands in front. -/
theorem UserForm.userInfo?_eq {user : String} (h : UserForm user) (mark : Char) :
    userInfo? (mark :: user.toList.reverse) = some user := by
  rw [userInfo?, List.reverse_reverse]
  cases h with
  | name part nonempty =>
    have hnone : escape escapedInUserInfo [] = "" := rfl
    rw [splitAtAny_of_forall part.noColon]
    simp only [List.tail_nil, escape_eq part, hnone, isEmpty_eq_false nonempty]
    rfl
  | @password name password part part' nonempty =>
    have hsplit : splitAtAny (· == ':') (name ++ ":" ++ password).toList = (name.toList, ':' :: password.toList) := by
      rw [String.toList_append, String.toList_append, List.append_assoc]
      exact splitAtAny_append part.noColon rfl _
    rw [hsplit]
    simp only [List.tail_cons, escape_eq part, escape_eq part', isEmpty_eq_false nonempty, Bool.and_false]
    rfl

/-- No character of the user info ends the authority. -/
theorem UserForm.isInner {user : String} (h : UserForm user) : ∀ c ∈ user.toList, IsInner c := by
  have hpart : ∀ {c : Char}, escapedInUserInfo c = false → IsInner c := by
    intro c hc
    obtain ⟨hpath, hmarks⟩ := escapedInUserInfo_iff.mp hc
    have hends := (escapedInPath_iff.mp hpath).2.2.2
    have hsubset : "#?/\\@".toList ⊆ "/:;=@[\\]^|".toList ++ "#?\x7b\x7d".toList := by decide
    exact ⟨visible_of_escapedInPath hpath, fun hmem => (List.mem_append.mp (hsubset hmem)).elim hmarks hends⟩
  cases h with
  | name part nonempty => exact fun c hc => hpart (part c hc)
  | password part part' nonempty =>
    intro c hc
    rw [String.toList_append, String.toList_append] at hc
    simp only [List.mem_append] at hc
    rcases hc with (hc | hc) | hc
    · exact hpart (part c hc)
    · obtain rfl := List.mem_singleton.mp hc
      exact ⟨by decide, by decide⟩
    · exact hpart (part' c hc)

theorem portIn?_toDigits {scheme : String} {p : Nat} (hp : p < 65536) (hown : defaultPort scheme ≠ some p) :
    portIn? scheme (some (Nat.toDigits 10 p)) = some (some p) := by
  obtain ⟨d, digits, hd⟩ := List.exists_cons_of_ne_nil (Nat.toDigits_ne_nil (n := p) (b := 10))
  have hread : portOf? scheme (Nat.toDigits 10 p) = some (some p) := by
    rw [portOf?, Decimal.ofDigits?_toDigits, Option.bind_some, if_pos hp, if_neg (by simpa using hown)]
  rw [hd] at hread ⊢
  exact hread

/-- A port that is kept is one of 16 bits, and not the one that goes without saying. -/
theorem port_of_portIn? {scheme : String} {text : Option (List Char)} {port : Option Nat}
    (h : portIn? scheme text = some port) : ∀ p ∈ port, p < 65536 ∧ defaultPort scheme ≠ some p := by
  have hread : ∀ {digits}, portOf? scheme digits = some port → ∀ p ∈ port, p < 65536 ∧ defaultPort scheme ≠ some p := by
    intro digits h p hp
    obtain ⟨n, _, h⟩ := Option.bind_eq_some_iff.mp h
    split at h
    · next hn =>
      cases h
      split at hp
      · cases hp
      · next hown =>
        cases hp
        exact ⟨hn, by simpa using hown⟩
    · cases h
  match text, h with
  | none, h => cases h; exact fun _ hp => nomatch hp
  | some [], h => cases h; exact fun _ hp => nomatch hp
  | some (d :: digits), h => exact hread h

theorem splitPort_of_forall (h : ∀ c ∈ l, forbiddenInHost c = false) : splitPort l = (l, none) := by
  have hmark : ∀ c ∈ l.reverse, (c == ':' || c == ']') = false := by
    intro c hc
    have hmarks := (allowed_of_forbiddenInHost (h c (List.mem_reverse.mp hc))).2.2
    have hsubset : [':', ']'] ⊆ "#/:<>?@[\\]^|%".toList := by decide
    exact neither_of_not_mem fun hmem => hmarks (hsubset hmem)
  rw [splitPort, splitAtAny_of_forall hmark]

/-- No part of a host is taken for a port. -/
theorem HostForm.splitPort_eq (h : HostForm l) : splitPort l = (l, none) := by
  cases h with
  | @bracketed pieces address =>
    -- the bracket at the end is met before the colons between the brackets
    have hreverse : ('[' :: (addressChars pieces ++ [']'])).reverse =
        [] ++ ']' :: ('[' :: addressChars pieces).reverse := by simp
    rw [splitPort, hreverse, splitAtAny_append (List.forall_mem_nil _) rfl]
    rfl
  | name lower nonempty allowed noNumber =>
    exact splitPort_of_forall fun c hc => Bool.not_eq_true _ ▸ List.any_eq_false.mp allowed c hc
  | address ha hb hc hd =>
    exact splitPort_of_forall fun c hc => forbiddenInHost_of_isDotted (isDotted_of_mem_dotted hc)

/-- Digits after the last colon are the port. -/
theorem splitPort_digits (p : Nat) : splitPort (l ++ ':' :: Nat.toDigits 10 p) = (l, some (Nat.toDigits 10 p)) := by
  have hmark : ∀ c ∈ (Nat.toDigits 10 p).reverse, (c == ':' || c == ']') = false := by
    intro c hc
    have hdigit := Decimal.isDigit_of_mem_toDigits (List.mem_reverse.mp hc)
    exact neither_of_not_mem (not_mem_marks rfl hdigit)
  have hreverse : (l ++ ':' :: Nat.toDigits 10 p).reverse = (Nat.toDigits 10 p).reverse ++ ':' :: l.reverse := by
    simp
  rw [splitPort, hreverse, splitAtAny_append hmark rfl]
  simp only [List.reverse_reverse]

/-! ### Authorities -/

structure Authority.IsCanonical (scheme : String) (a : Authority) : Prop where
  user : ∀ user ∈ a.userInfo, UserForm user
  host : HostForm a.host.toList
  port : ∀ p ∈ a.port, p < 65536 ∧ defaultPort scheme ≠ some p

/-- The authority is read from its end: the user, the port, and then the host. -/
theorem authority?_eq {scheme : String} (hscheme : scheme = "http" ∨ scheme = "https") (cs : List Char) :
    authority? scheme cs =
      (portIn? scheme (splitPort (splitAtAny (· == '@') cs.reverse).1.reverse).2).bind fun port =>
        (domain? (splitPort (splitAtAny (· == '@') cs.reverse).1.reverse).1).map fun host =>
          ⟨userInfo? (splitAtAny (· == '@') cs.reverse).2, host, port⟩ := by
  have hfile : scheme ≠ "file" := by rcases hscheme with rfl | rfl <;> decide
  have hspecial : isSpecial scheme = true := by rcases hscheme with rfl | rfl <;> rfl
  unfold authority?
  simp only [hfile, hspecial, false_and, if_false, if_true, Option.map_eq_bind]
  rfl

namespace Authority

variable {scheme : String} {a : Authority}

def userChars (a : Authority) : List Char := (a.userInfo.map fun user => user.toList ++ ['@']).getD []

def portChars (a : Authority) : List Char := (a.port.map fun p => ':' :: Nat.toDigits 10 p).getD []

theorem toList_text (a : Authority) : a.text.toList = a.userChars ++ (a.host.toList ++ a.portChars) := by
  cases a with
  | mk userInfo host port => cases userInfo <;> cases port <;> simp [text, userChars, portChars]

theorem isCanonical_of_authority? (hscheme : scheme = "http" ∨ scheme = "https")
    (h : authority? scheme l = some a) : a.IsCanonical scheme := by
  rw [authority?_eq hscheme] at h
  obtain ⟨port, hport, h⟩ := Option.bind_eq_some_iff.mp h
  obtain ⟨host, hhost, rfl⟩ := Option.map_eq_some_iff.mp h
  exact ⟨fun _ huser => userForm_of_userInfo? huser, hostForm_of_domain? hhost, port_of_portIn? hport⟩

namespace IsCanonical

variable (h : a.IsCanonical scheme)

include h

theorem isInner_host_port : ∀ c ∈ a.host.toList ++ a.portChars, IsInner c := by
  intro c hc
  rcases List.mem_append.mp hc with hc | hc
  · exact h.host.isInner c hc
  · cases hport : a.port with
    | none =>
      rw [portChars, hport] at hc
      cases hc
    | some p =>
      rw [portChars, hport] at hc
      rcases List.mem_cons.mp hc with rfl | hc
      · exact ⟨by decide, by decide⟩
      · exact isInner_of_isBracketed (isBracketed_of_mem_toDigits (by decide) (by decide) hc)

/-- An authority is ended by none of its characters, and the host begins behind the last `@`. -/
theorem splitUser_eq : splitAtAny (· == '@') a.text.toList.reverse =
    ((a.host.toList ++ a.portChars).reverse, a.userChars.reverse) := by
  have hmark : ∀ c ∈ (a.host.toList ++ a.portChars).reverse, (c == '@') = false := by
    intro c hc
    have hinner := (h.isInner_host_port c (List.mem_reverse.mp hc)).2
    rw [beq_eq_false_iff_ne]
    rintro rfl
    exact hinner (by decide)
  rw [toList_text, List.reverse_append]
  cases huser : a.userInfo with
  | none =>
    rw [userChars, huser]
    rw [show ((none : Option String).map fun user => user.toList ++ ['@']).getD [] = [] from rfl, List.reverse_nil,
      List.append_nil, splitAtAny_of_forall hmark]
  | some user =>
    have hreverse : a.userChars.reverse = '@' :: user.toList.reverse := by
      rw [userChars, huser]
      exact List.reverse_append
    rw [hreverse, splitAtAny_append hmark rfl]

theorem userInfo?_eq : userInfo? a.userChars.reverse = a.userInfo := by
  cases huser : a.userInfo with
  | none =>
    rw [userChars, huser]
    rfl
  | some user =>
    have hreverse : a.userChars.reverse = '@' :: user.toList.reverse := by
      rw [userChars, huser]
      exact List.reverse_append
    rw [hreverse, (h.user user huser).userInfo?_eq]

theorem splitPort_eq : splitPort (a.host.toList ++ a.portChars) = (a.host.toList, a.port.map (Nat.toDigits 10)) := by
  cases hport : a.port with
  | none =>
    rw [portChars, hport]
    exact (List.append_nil a.host.toList).symm ▸ h.host.splitPort_eq
  | some p =>
    rw [portChars, hport]
    exact splitPort_digits p

theorem portIn?_eq : portIn? scheme (a.port.map (Nat.toDigits 10)) = some a.port := by
  cases hport : a.port with
  | none => rfl
  | some p =>
    obtain ⟨hp, hown⟩ := h.port p hport
    exact portIn?_toDigits hp hown

/-- An authority that was read is read again from its text. -/
theorem authority?_text (hscheme : scheme = "http" ∨ scheme = "https") : authority? scheme a.text.toList = some a := by
  have hhost : domain? a.host.toList = some a.host := by
    rw [h.host.domain?_eq, String.ofList_toList]
  rw [authority?_eq hscheme, h.splitUser_eq, List.reverse_reverse, h.splitPort_eq, h.portIn?_eq, Option.bind_some,
    hhost, h.userInfo?_eq]
  rfl

theorem text_ne_nil : a.text.toList ≠ [] := by
  rw [toList_text]
  intro hnil
  have hhost := (List.append_eq_nil_iff.mp (List.append_eq_nil_iff.mp hnil).2).1
  exact h.host.ne_nil hhost

/-- No character of an authority ends it. -/
theorem isInner_text : ∀ c ∈ a.text.toList, IsInner c ∨ c = '@' := by
  intro c hc
  rw [toList_text] at hc
  rcases List.mem_append.mp hc with hc | hc
  · cases huser : a.userInfo with
    | none =>
      rw [userChars, huser] at hc
      cases hc
    | some user =>
      rw [userChars, huser] at hc
      rcases List.mem_append.mp hc with hc | hc
      · exact .inl ((h.user user huser).isInner c hc)
      · exact .inr (List.mem_singleton.mp hc)
  · exact .inl (h.isInner_host_port c hc)

end IsCanonical

end Authority

/-! ### Locators -/

/-- A locator of a web service, without query and fragment, that is read as itself. -/
structure IsCanonical (u : Url) : Prop where
  http : u.isHttp = true
  authority : ∃ a, u.authority = some a ∧ a.IsCanonical u.scheme
  path : ∃ texts, u.path = .segments texts ∧ texts ≠ [] ∧ ∀ s ∈ texts, IsSegment s
  noQuery : u.query = none
  noFragment : u.fragment = none

theorem scheme_of_isHttp {u : Url} (h : u.isHttp = true) : u.scheme = "http" ∨ u.scheme = "https" := by
  simpa [isHttp] using h

/-- An authority and a path behind the slashes that follow the scheme of a web service. -/
theorem hierarchy?_eq {scheme : String} (hscheme : scheme = "http" ∨ scheme = "https") (cs : List Char) :
    hierarchy? scheme cs = (authority? scheme (splitAtAny isSlash (cs.dropWhile isSlash)).1).map fun a =>
      (some a, .segments (segmentsOf true (splitAtAny isSlash (cs.dropWhile isSlash)).2)) := by
  have hspecial : isSpecial scheme = true := by rcases hscheme with rfl | rfl <;> rfl
  have hfile : (scheme != "file") = true := by rcases hscheme with rfl | rfl <;> rfl
  unfold hierarchy?
  simp only [hspecial, hfile, Bool.and_self, if_true, Bool.true_and, Bool.not_true, Bool.and_false, Bool.false_eq_true,
    if_false, Option.map_eq_bind]
  rfl

/-- A locator of a web service without query and fragment is in its canonical form when it was read. -/
theorem isCanonical_of_ofText? {u : Url} (h : ofText? s = some u) (hhttp : u.isHttp = true) (hq : u.query = none)
    (hf : u.fragment = none) : u.IsCanonical := by
  have hscheme := scheme_of_isHttp hhttp
  unfold ofText? at h
  simp only [Option.bind_eq_bind, Option.bind_eq_some_iff] at h
  obtain ⟨⟨scheme, rest⟩, _, ⟨authority, path⟩, hl, h⟩ := h
  cases h
  rw [hierarchy?_eq hscheme] at hl
  obtain ⟨a, ha, hparts⟩ := Option.map_eq_some_iff.mp hl
  cases hparts
  exact ⟨hhttp, ⟨a, rfl, Authority.isCanonical_of_authority? hscheme ha⟩,
    ⟨_, rfl, segmentsOf_ne_nil _ _, fun _ hs => isSegment_of_mem_segmentsOf hs⟩, hq, hf⟩

/-- Nothing is trimmed from a text whose characters can be seen, and nothing is dropped within it. -/
theorem trimmed_eq (h : ∀ c ∈ l, 0x20 < c.toNat) :
    (((l.dropWhile fun c => decide (c.toNat ≤ 0x20)).reverse.dropWhile fun c => decide (c.toNat ≤ 0x20)).reverse).filter
      (fun c => !(c == '\t' || c == '\n' || c == '\r')) = l := by
  have hedge : ∀ c ∈ l, decide (c.toNat ≤ 0x20) = false := fun c hc => decide_eq_false (not_le.mpr (h c hc))
  -- the ends are looked at first, and then what stands between them
  have hfront : (l.dropWhile fun c => decide (c.toNat ≤ 0x20)) = l := by
    cases l with
    | nil => rfl
    | cons c l => exact List.dropWhile_cons_of_neg (by simpa using h c List.mem_cons_self)
  have hback : (l.reverse.dropWhile fun c => decide (c.toNat ≤ 0x20)).reverse = l := by
    cases l with
    | nil => rfl
    | cons c l => exact reverse_dropWhile_reverse (List.suffix_refl _) (List.cons_ne_nil _ _) hedge
  rw [hfront, hback]
  apply List.filter_eq_self.mpr
  intro c hc
  have hlow := h c hc
  simp only [Bool.not_eq_true', Bool.or_eq_false_iff, beq_eq_false_iff_ne]
  refine ⟨⟨?_, ?_⟩, ?_⟩ <;> rintro rfl <;> exact absurd hlow (by decide)

theorem scheme?_append {scheme : String} (hscheme : scheme = "http" ∨ scheme = "https") (rest : List Char) :
    scheme? (scheme.toList ++ ':' :: rest) = some (scheme, rest) := by
  have hsplit : splitAtAny (· == ':') (scheme.toList ++ ':' :: rest) = (scheme.toList, ':' :: rest) := by
    have hcolon : scheme.toList.any (· == ':') = false := by rcases hscheme with rfl | rfl <;> rfl
    exact splitAtAny_append (fun c hc => Bool.not_eq_true _ ▸ List.any_eq_false.mp hcolon c hc) rfl _
  rw [scheme?, hsplit]
  rcases hscheme with rfl | rfl <;> rfl

def innerChars (a : Authority) (texts : List String) : List Char :=
  '/' :: '/' :: (a.text.toList ++ pathChars texts)

namespace IsCanonical

variable {u : Url} {a : Authority}

theorem eq_mk (h : u.IsCanonical) (ha : u.authority = some a) (htexts : u.path = .segments texts) :
    u = ⟨u.scheme, some a, .segments texts, none, none⟩ := by
  obtain ⟨scheme, authority, path, query, fragment⟩ := u
  obtain rfl : authority = some a := ha
  obtain rfl : path = .segments texts := htexts
  obtain rfl : query = none := h.noQuery
  obtain rfl : fragment = none := h.noFragment
  rfl

theorem toList_text (h : u.IsCanonical) (ha : u.authority = some a) (htexts : u.path = .segments texts) :
    u.text.toList = u.scheme.toList ++ ':' :: innerChars a texts := by
  have htext : u.text = u.scheme ++ ":" ++ ("//" ++ a.text) ++ (Path.segments texts).text := by
    simp only [text, target, ha, htexts, h.noQuery, h.noFragment, String.append_empty]
  rw [htext]
  simp [innerChars, toList_text_segments]

/-- Behind the scheme no character ends the path. -/
theorem visible_innerChars (ha : a.IsCanonical u.scheme) (hsegments : ∀ s ∈ texts, IsSegment s) :
    ∀ c ∈ innerChars a texts, 0x20 < c.toNat ∧ c ≠ '#' ∧ c ≠ '?' := by
  have hslash : 0x20 < '/'.toNat ∧ '/' ≠ '#' ∧ '/' ≠ '?' := by decide
  have hinner : ∀ {c}, IsInner c → 0x20 < c.toNat ∧ c ≠ '#' ∧ c ≠ '?' := by
    intro c hc
    refine ⟨hc.1, ?_, ?_⟩ <;> rintro rfl <;> exact hc.2 (by decide)
  intro c hc
  simp only [innerChars, pathChars, List.mem_cons, List.mem_append, List.mem_flatMap] at hc
  rcases hc with rfl | rfl | hc | ⟨s, hs, rfl | hc⟩
  · exact hslash
  · exact hslash
  · rcases ha.isInner_text c hc with hc | rfl
    · exact hinner hc
    · decide
  · exact hslash
  · have hkept := (hsegments s hs).kept c hc
    have hmarks := (escapedInPath_iff.mp hkept).2.2.2
    refine ⟨visible_of_escapedInPath hkept, ?_, ?_⟩ <;> rintro rfl <;> exact hmarks (by decide)

/-- What stands behind the scheme reads back, its parts being free of the marks between them. -/
theorem hierarchy?_innerChars (hscheme : u.scheme = "http" ∨ u.scheme = "https") (ha : a.IsCanonical u.scheme)
    (hne : texts ≠ []) (hsegments : ∀ s ∈ texts, IsSegment s) :
    hierarchy? u.scheme (innerChars a texts) = some (some a, .segments texts) := by
  have hauthority : ∀ c ∈ a.text.toList, isSlash c = false := by
    intro c hc
    rcases ha.isInner_text c hc with hc | rfl
    · have hsubset : ['/', '\\'] ⊆ "#?/\\@".toList := by decide
      exact isSlash_of_not_mem fun hmem => hc.2 (hsubset hmem)
    · rfl
  -- the slashes after the scheme end where the authority begins
  have hdrop : (innerChars a texts).dropWhile isSlash = a.text.toList ++ pathChars texts := by
    obtain ⟨c, cs, hcs⟩ := List.exists_cons_of_ne_nil ha.text_ne_nil
    have hc : isSlash c = false := hauthority c (hcs ▸ List.mem_cons_self)
    rw [innerChars, hcs, List.dropWhile_cons_of_pos rfl, List.dropWhile_cons_of_pos rfl, List.cons_append,
      List.dropWhile_cons_of_neg (by simp [hc])]
  have hsplit : splitAtAny isSlash (a.text.toList ++ pathChars texts) = (a.text.toList, pathChars texts) := by
    obtain ⟨s, rest, rfl⟩ := List.exists_cons_of_ne_nil hne
    exact splitAtAny_append hauthority rfl _
  rw [hierarchy?_eq hscheme, hdrop, hsplit, ha.authority?_text hscheme, segmentsOf_pathChars hsegments hne]
  rfl

/-- A locator in canonical form is read from its text. -/
theorem ofText?_text (h : u.IsCanonical) : ofText? u.text = some u := by
  obtain ⟨a, ha, hauthority⟩ := h.authority
  obtain ⟨texts, htexts, hne, hsegments⟩ := h.path
  have hscheme := scheme_of_isHttp h.http
  have hvisible := visible_innerChars hauthority hsegments
  have hall : ∀ c ∈ u.text.toList, 0x20 < c.toNat := by
    have hletters : u.scheme.toList.all (fun c => decide (0x20 < c.toNat)) = true := by
      rcases hscheme with hs | hs <;> rw [hs] <;> rfl
    rw [h.toList_text ha htexts]
    intro c hc
    rcases List.mem_append.mp hc with hc | hc
    · exact of_decide_eq_true (List.all_eq_true.mp hletters c hc)
    rcases List.mem_cons.mp hc with rfl | hc
    · decide
    · exact (hvisible c hc).1
  have hhash : splitAtAny (· == '#') (innerChars a texts) = (innerChars a texts, []) :=
    splitAtAny_of_forall fun c hc => beq_eq_false_iff_ne.mpr (hvisible c hc).2.1
  have hquestion : splitAtAny (· == '?') (innerChars a texts) = (innerChars a texts, []) :=
    splitAtAny_of_forall fun c hc => beq_eq_false_iff_ne.mpr (hvisible c hc).2.2
  -- the reader takes the text apart where it was put together
  unfold ofText?
  simp only [trimmed_eq hall]
  rw [h.toList_text ha htexts, scheme?_append hscheme]
  simp only [Option.bind_eq_bind, Option.bind_some, hhash, hquestion,
    hierarchy?_innerChars hscheme hauthority hne hsegments]
  exact congrArg some (h.eq_mk ha htexts).symm

end IsCanonical

end OracleDuty.Url
