import OracleDuty.Json.Printer
import OracleDuty.Json.Reader
import OracleDuty.Proofs.Bytes
import OracleDuty.Proofs.Decimal
/-!
The compact text of a document reads back as the document, as long as it holds no doubles: these are
read by scaling, which may change their last bit.

Main statement: `read?_render`.
-/
namespace OracleDuty.Json

mutual

def Plain : Json → Prop
  | integer i => -0x8000000000000000 ≤ i ∧ i < (UInt64.size : Int)
  | float _ => False
  | malformed => False
  | array items => PlainAll items
  | object entries => PlainEntries entries
  | _ => True

def PlainAll : List Json → Prop
  | [] => True
  | j :: rest => Plain j ∧ PlainAll rest

def PlainEntries : List (String × Json) → Prop
  | [] => True
  | (_, j) :: rest => Plain j ∧ PlainEntries rest

end

theorem plain_ofUInt64 (n : UInt64) : (ofUInt64 n).Plain := by
  have h : (n.toNat : Int) < (UInt64.size : Int) := by exact_mod_cast n.toNat_lt
  rw [ofUInt64, Plain]
  omega

theorem plain_of_int64 (i : Int64) : (integer i.toInt).Plain := by
  have hlow := i.le_toInt
  have hhigh := i.toInt_lt
  exact ⟨hlow, Int.lt_trans hhigh (by decide)⟩

theorem plainEntries_iff {entries : List (String × Json)} :
    PlainEntries entries ↔ ∀ e ∈ entries, e.2.Plain := by
  induction entries with
  | nil => simp [PlainEntries]
  | cons e entries ih => simp only [PlainEntries, ih, List.forall_mem_cons]

/-! ### Texts -/

def pieceOf (c : Char) : Piece :=
  if c < ' ' ∧ c ∉ ['\x08', '\x0c', '\n', '\r', '\t'] then .unit c.toNat else .char c

theorem toNat_lt_of_lt_space {c : Char} (h : c < ' ') : c.toNat < 32 := h

/-- An escaped character is read as one piece. -/
theorem pieces?_escape (c : Char) (rest : List Char) :
    pieces? (escape c ++ rest) = (pieces? rest).map fun (ps, after) => (pieceOf c :: ps, after) := by
  -- only the last case of the escape is not a fixed pair of letters
  unfold escape
  split
  case h_8 _ h1 h2 h3 h4 h5 h6 h7 =>
    split
    · next hc =>
      have hn := toNat_lt_of_lt_space hc
      have hu : unitOf? '0' '0' (Hex.digit (c.toNat / 16)) (Hex.digit (c.toNat % 16)) =
          some c.toNat := by
        rw [unitOf?, Hex.value?_digit (by omega), Hex.value?_digit (by omega),
          show Hex.value? '0' = some 0 from rfl]
        simp only [Option.bind_eq_bind, Option.bind_some, Option.pure_def, Option.some.injEq]
        omega
      have hp : pieceOf c = .unit c.toNat := by
        simp only [pieceOf, List.mem_cons, List.not_mem_nil, or_false, not_or]
        rw [if_pos ⟨hc, h3, h4, h5, h6, h7⟩]
      simp only [List.cons_append, List.nil_append]
      rw [pieces?.eq_3, hu, hp]
      cases pieces? rest <;> rfl
    · next hc =>
      have hp : pieceOf c = .char c := by simp [pieceOf, hc]
      rw [List.singleton_append, pieces?.eq_5 c rest h1 (fun _ _ _ _ _ h => absurd h h2)
        (fun _ _ h => absurd h h2), if_neg hc, hp]
      cases pieces? rest <;> rfl
  all_goals
    rw [List.cons_append, List.cons_append, List.nil_append,
      pieces?.eq_4 _ _ (fun _ _ _ _ _ h => absurd h (by decide))]
    cases pieces? rest <;> rfl

theorem pieces?_quoted (cs rest : List Char) :
    pieces? (cs.flatMap escape ++ '"' :: rest) = some (cs.map pieceOf, rest) := by
  induction cs with
  | nil => rfl
  | cons c cs ih =>
    rw [List.flatMap_cons, List.append_assoc, pieces?_escape, ih]
    rfl

/-- No unit of an escaped text is a surrogate. -/
theorem join?_unit {n : Nat} (h : n < 32) (ps : List Piece) :
    join? (.unit n :: ps) = (join? ps).map (Char.ofNat n :: ·) := by
  have hh : isHighSurrogate n = false := by simp [isHighSurrogate]; omega
  have hl : isLowSurrogate n = false := by simp [isLowSurrogate]; omega
  rcases ps with _ | ⟨_ | l, ps⟩
  · rw [join?.eq_4 n [] (by simp), if_neg (by simp [hh, hl])]
  · rw [join?.eq_4 n _ (by simp), if_neg (by simp [hh, hl])]
  · rw [join?.eq_3, if_neg (by simp [hh]), if_neg (by simp [hl])]

/-- The pieces of a text spell it. -/
theorem join?_map_pieceOf (cs : List Char) : join? (cs.map pieceOf) = some cs := by
  induction cs with
  | nil => rfl
  | cons c cs ih =>
    rw [List.map_cons, pieceOf]
    split
    · next h =>
      rw [join?_unit (toNat_lt_of_lt_space h.1), ih, Option.map_some, Char.ofNat_toNat]
    · rw [join?, ih, Option.map_some]

/-- A text in quotes reads back as the text, whatever follows it. -/
theorem text?_quoted (s : String) (rest : List Char) :
    text? (s.toList.flatMap escape ++ '"' :: rest) = some (some s, rest) := by
  simp only [text?, pieces?_quoted, Option.map_some, join?_map_pieceOf, String.ofList_toList]

/-! ### Numbers -/

def StopsNumber (rest : List Char) : Prop :=
  ∀ c, rest.head? = some c → c.isDigit = false ∧ c ≠ '.' ∧ c ≠ 'e' ∧ c ≠ 'E'

theorem StopsNumber.stopsDigits {rest : List Char} (h : StopsNumber rest) :
    Decimal.StopsDigits rest := fun c hc => (h c hc).1

theorem fraction?_of_stops {rest : List Char} (h : StopsNumber rest) :
    fraction? rest = some ([], rest) := by
  unfold fraction?
  split
  · exact absurd rfl (h '.' rfl).2.1
  · rfl

theorem exponent?_of_stops {rest : List Char} (h : StopsNumber rest) :
    exponent? rest = some ((false, []), rest) := by
  unfold exponent?
  split
  · exact absurd rfl (h 'e' rfl).2.2.1
  · exact absurd rfl (h 'E' rfl).2.2.2
  · rfl

/-- Decimal digits have no leading zero, so that the reader takes all of them. -/
theorem integral?_toDigits (n : Nat) {rest : List Char} (h : Decimal.StopsDigits rest) :
    integral? (Nat.toDigits 10 n ++ rest) = some (Nat.toDigits 10 n, rest) := by
  rcases Nat.eq_zero_or_pos n with rfl | hn
  · rw [Nat.toDigits_zero]; rfl
  · obtain ⟨c, cs, hc, h0⟩ := Decimal.toDigits_eq_cons hn
    have hd : ∀ c ∈ Nat.toDigits 10 n, c.isDigit = true := fun _ => Decimal.isDigit_of_mem_toDigits
    rw [integral?.eq_2]
    · simp only [digits, Decimal.takeWhile_isDigit_append hd h,
        Decimal.dropWhile_isDigit_append hd h]
      simp [hc]
    · intro r hr
      rw [hc, List.cons_append, List.cons.injEq] at hr
      exact h0 hr.1

theorem toJson_natural {n : Nat} (h : n < UInt64.size) :
    Lexeme.toJson ⟨false, Nat.toDigits 10 n, [], false, []⟩ = .integer n := by
  simp only [Lexeme.toJson, Nat.ofDigitChars_ten_toDigits, List.isEmpty_nil]
  rw [if_pos ⟨trivial, trivial, rfl, h⟩]

theorem toJson_negative {n : Nat} (h0 : 0 < n) (h : n ≤ 0x8000000000000000) :
    Lexeme.toJson ⟨true, Nat.toDigits 10 n, [], false, []⟩ = .integer (-(n : Int)) := by
  simp only [Lexeme.toJson, Nat.ofDigitChars_ten_toDigits, List.isEmpty_nil]
  rw [if_neg (fun h => absurd h.2.2.1 (by decide)), if_pos ⟨trivial, trivial, trivial, h0, h⟩]

/-- An integer reads back wherever nothing prolongs it. -/
theorem number?_integerChars {i : Int} (h : (integer i).Plain) {rest : List Char}
    (hr : StopsNumber rest) : number? (integerChars i ++ rest) = some (.integer i, rest) := by
  rw [Plain] at h
  cases i with
  | ofNat n =>
    have hn : n < UInt64.size := by have h := h.2; simp only [Int.ofNat_eq_natCast] at h; omega
    have hm : ∀ r, Nat.toDigits 10 n ++ rest ≠ '-' :: r := by
      intro r hr
      obtain ⟨c, cs, hc⟩ := List.exists_cons_of_ne_nil (Nat.toDigits_ne_nil (n := n) (b := 10))
      have hd := Decimal.isDigit_of_mem_toDigits (n := n) (c := c) (by simp [hc])
      rw [hc, List.cons_append, List.cons.injEq] at hr
      rw [hr.1] at hd
      exact absurd hd (by decide)
    unfold number? integerChars
    split
    next negative cs hs =>
    split at hs
    · next r hr => exact absurd hr (hm r)
    · obtain ⟨rfl, rfl⟩ := Prod.mk.inj hs
      simp only [integral?_toDigits n hr.stopsDigits, fraction?_of_stops hr, exponent?_of_stops hr,
        Option.bind_eq_bind, Option.bind_some, Option.pure_def, toJson_natural hn]
      rfl
  | negSucc n =>
    have hn : n + 1 ≤ 0x8000000000000000 := by have h := h.1; omega
    simp only [number?, integerChars, List.cons_append, integral?_toDigits (n + 1) hr.stopsDigits,
      fraction?_of_stops hr, exponent?_of_stops hr, Option.bind_eq_bind, Option.bind_some,
      Option.pure_def, toJson_negative (Nat.succ_pos n) hn]
    rfl

/-! ### Documents -/

theorem skipBlank_cons {c : Char} (h : isBlank c = false) (rest : List Char) :
    skipBlank (c :: rest) = c :: rest := by
  rw [skipBlank, List.dropWhile_cons_of_neg (by simp [h])]

theorem isBlank_of_isDigit {c : Char} (h : c.isDigit = true) : isBlank c = false := by
  cases hb : isBlank c with
  | false => rfl
  | true =>
    simp only [isBlank, Bool.or_eq_true, beq_iff_eq] at hb
    rcases hb with ((rfl | rfl) | rfl) | rfl <;> exact absurd h (by decide)

/-- The text of a document begins with a character that is neither blank nor the end of an array. -/
theorem chars_eq_cons {j : Json} (h : j.Plain) :
    ∃ c cs, chars j = c :: cs ∧ isBlank c = false ∧ c ≠ ']' := by
  cases j with
  | null => exact ⟨_, _, rfl, rfl, by decide⟩
  | bool b => cases b <;> exact ⟨_, _, rfl, rfl, by decide⟩
  | integer i =>
    cases i with
    | ofNat n =>
      obtain ⟨c, cs, hc⟩ := List.exists_cons_of_ne_nil (Nat.toDigits_ne_nil (n := n) (b := 10))
      have hd := Decimal.isDigit_of_mem_toDigits (n := n) (c := c) (by simp [hc])
      refine ⟨c, cs, hc, isBlank_of_isDigit hd, ?_⟩
      rintro rfl
      exact absurd hd (by decide)
    | negSucc n => exact ⟨_, _, rfl, rfl, by decide⟩
  | float x => exact absurd h (by simp [Plain])
  | string s => exact ⟨_, _, rfl, rfl, by decide⟩
  | array items => cases items <;> exact ⟨_, _, rfl, rfl, by decide⟩
  | object entries => cases entries <;> exact ⟨_, _, rfl, rfl, by decide⟩
  | malformed => exact absurd h (by simp [Plain])

theorem ofEntries_some (entries : List (String × Json)) :
    ofEntries (entries.map fun e => (some e.1, e.2)) = .object entries := by
  have h : ((entries.map fun e => (some e.1, e.2)).mapM fun e : Option String × Json =>
      e.1.map (·, e.2)) = some entries := by
    induction entries with
    | nil => rfl
    | cons e entries ih =>
      rw [List.map_cons, List.mapM_cons, ih]
      rfl
  unfold ofEntries
  split
  · next read hread =>
    have heq : entries = read := Option.some.inj (h.symm.trans hread)
    rw [heq]
  · next hread => exact absurd (h.symm.trans hread) (Option.some_ne_none _)

theorem stopsNumber_itemChars (items : List Json) (rest : List Char) :
    StopsNumber (itemChars items ++ rest) := by
  intro c hc
  cases items <;> cases hc <;> decide

theorem stopsNumber_entryChars (entries : List (String × Json)) (rest : List Char) :
    StopsNumber (entryChars entries ++ rest) := by
  intro c hc
  cases entries <;> cases hc <;> decide

/-- What begins like a number is read as one. -/
theorem document?_of_number {c : Char} (h : c = '-' ∨ c.isDigit = true) (cs : List Char)
    (fuel : Nat) : document? (fuel + 1) (c :: cs) = number? (c :: cs) := by
  have hb : isBlank c = false := by
    rcases h with rfl | h
    · rfl
    · exact isBlank_of_isDigit h
  rw [document?.eq_2, skipBlank_cons hb]
  split
  case h_7 => rfl
  all_goals
    rename_i hc
    obtain ⟨rfl, -⟩ := List.cons.inj hc
    exact absurd h (by decide)

theorem integerChars_eq_cons (i : Int) :
    ∃ c cs, integerChars i = c :: cs ∧ (c = '-' ∨ c.isDigit = true) := by
  cases i with
  | ofNat n =>
    obtain ⟨c, cs, hc⟩ := List.exists_cons_of_ne_nil (Nat.toDigits_ne_nil (n := n) (b := 10))
    exact ⟨c, cs, hc, .inr (Decimal.isDigit_of_mem_toDigits (n := n) (by simp [hc]))⟩
  | negSucc n => exact ⟨_, _, rfl, .inl rfl⟩

-- the reader is bounded by the length of the text, which shrinks as it goes into a document
mutual

/-- The text of a document reads back as the document, whatever follows it. -/
theorem document?_chars : (j : Json) → j.Plain → ∀ {rest : List Char}, StopsNumber rest →
    ∀ fuel : Nat, (chars j).length < fuel → document? fuel (chars j ++ rest) = some (j, rest)
  | _, _, _, _, 0, hf => absurd hf (Nat.not_lt_zero _)
  | .null, _, rest, _, fuel + 1, _ => rfl
  | .bool true, _, rest, _, fuel + 1, _ => rfl
  | .bool false, _, rest, _, fuel + 1, _ => rfl
  | .float _, hj, _, _, _ + 1, _ => absurd hj (by simp [Plain])
  | .malformed, hj, _, _, _ + 1, _ => absurd hj (by simp [Plain])
  | .integer i, hj, rest, hr, fuel + 1, _ => by
    obtain ⟨c, cs, hc, hd⟩ := integerChars_eq_cons i
    rw [chars, ← number?_integerChars hj hr, hc, List.cons_append, document?_of_number hd]
  | .string s, _, rest, _, fuel + 1, _ => by
    rw [chars, quote, List.cons_append, List.cons_append, List.append_assoc, List.cons_append,
      List.nil_append, document?.eq_2, skipBlank_cons rfl]
    simp only [text?_quoted, Option.map_some, Option.elim_some]
  | .array [], _, rest, _, fuel + 1, _ => rfl
  | .array (j :: items), hj, rest, _, fuel + 1, hf => by
    obtain ⟨hj, hi⟩ : j.Plain ∧ PlainAll items := by simpa only [Plain, PlainAll] using hj
    -- the first item tells the array from an empty one
    obtain ⟨c, cs, hc, hb, hne⟩ := chars_eq_cons hj
    have hf : (chars j ++ itemChars items).length < fuel := by
      simpa only [chars, List.cons_append, List.length_cons, Nat.add_lt_add_iff_right] using hf
    have ht := items?_chars j items hj hi rest fuel hf
    rw [chars, List.cons_append, List.cons_append, List.append_assoc, document?.eq_2,
      skipBlank_cons rfl]
    rw [hc, List.cons_append] at ht ⊢
    simp only [skipBlank_cons hb]
    split
    · next h => exact absurd (List.cons.inj h).1 hne
    · rw [ht]
      rfl
  | .object [], _, rest, _, fuel + 1, _ => rfl
  | .object ((k, j) :: entries), hj, rest, _, fuel + 1, hf => by
    obtain ⟨hj, he⟩ : j.Plain ∧ PlainEntries entries := by simpa only [Plain, PlainEntries] using hj
    have hf : (quote k ++ ':' :: chars j ++ entryChars entries).length < fuel := by
      simpa only [chars, List.cons_append, List.length_cons, Nat.add_lt_add_iff_right] using hf
    have ht := entries?_chars k j entries hj he rest fuel hf
    simp only [quote, List.cons_append, List.append_assoc] at ht
    simp only [chars, quote, List.cons_append, List.append_assoc]
    rw [document?.eq_2, skipBlank_cons rfl]
    simp only [skipBlank_cons (show isBlank '"' = false from rfl)]
    split
    · next h => exact absurd (List.cons.inj h).1 (by decide)
    · rw [ht, Option.map_some, ofEntries_some]
termination_by j => sizeOf j

/-- The items of an array read back, up to its closing bracket. -/
theorem items?_chars : (j : Json) → (items : List Json) → j.Plain → PlainAll items →
    ∀ (rest : List Char) (fuel : Nat), (chars j ++ itemChars items).length < fuel →
      items? fuel (chars j ++ (itemChars items ++ rest)) = some (j :: items, rest)
  | _, _, _, _, _, 0, hf => absurd hf (Nat.not_lt_zero _)
  | j, [], hj, _, rest, fuel + 1, hf => by
    have hf : (chars j).length < fuel := by
      simpa only [itemChars, List.length_append, List.length_cons, List.length_nil,
        Nat.add_lt_add_iff_right] using hf
    have ht := document?_chars j hj (stopsNumber_itemChars [] rest) fuel hf
    rw [items?.eq_2, ht]
    rfl
  | j, j' :: items, hj, hi, rest, fuel + 1, hf => by
    obtain ⟨hj', hi⟩ : j'.Plain ∧ PlainAll items := by simpa only [PlainAll] using hi
    simp only [itemChars, List.length_append, List.cons_append, List.length_cons] at hf
    have ht := document?_chars j hj (stopsNumber_itemChars (j' :: items) rest)
      fuel (by omega)
    have hs := items?_chars j' items hj' hi rest fuel
      (by rw [List.length_append]; omega)
    rw [items?.eq_2, ht]
    simp only [itemChars, List.cons_append, List.append_assoc, Option.bind_eq_bind,
      Option.bind_some, skipBlank_cons (show isBlank ',' = false from rfl), hs, Option.pure_def]
termination_by j items => sizeOf j + sizeOf items

/-- The entries of an object read back, up to its closing brace. -/
theorem entries?_chars : (k : String) → (j : Json) → (entries : List (String × Json)) → j.Plain →
    PlainEntries entries → ∀ (rest : List Char) (fuel : Nat),
      (quote k ++ ':' :: chars j ++ entryChars entries).length < fuel →
      entries? fuel (quote k ++ ':' :: (chars j ++ (entryChars entries ++ rest))) =
        some (((k, j) :: entries).map (fun e => (some e.1, e.2)), rest)
  | _, _, _, _, _, _, 0, hf => absurd hf (Nat.not_lt_zero _)
  | k, j, [], hj, _, rest, fuel + 1, hf => by
    simp only [entryChars, List.length_append, List.length_cons] at hf
    have ht := document?_chars j hj (stopsNumber_entryChars [] rest) fuel (by omega)
    rw [entries?.eq_2, quote]
    simp only [List.cons_append, List.append_assoc, List.nil_append,
      skipBlank_cons (show isBlank '"' = false from rfl), text?_quoted, Option.bind_eq_bind,
      Option.bind_some, skipBlank_cons (show isBlank ':' = false from rfl), ht]
    rfl
  | k, j, (k', j') :: entries, hj, he, rest, fuel + 1, hf => by
    obtain ⟨hj', he⟩ : j'.Plain ∧ PlainEntries entries := by simpa only [PlainEntries] using he
    simp only [entryChars, List.length_append, List.length_cons] at hf
    have ht := document?_chars j hj (stopsNumber_entryChars ((k', j') :: entries) rest)
      fuel (by omega)
    have hs := entries?_chars k' j' entries hj' he rest fuel
      (by simp only [List.length_append, List.length_cons]; omega)
    rw [entries?.eq_2, quote]
    simp only [List.cons_append, List.append_assoc, List.nil_append,
      skipBlank_cons (show isBlank '"' = false from rfl), text?_quoted, Option.bind_eq_bind,
      Option.bind_some, skipBlank_cons (show isBlank ':' = false from rfl), ht]
    simp only [entryChars, List.cons_append, List.append_assoc,
      skipBlank_cons (show isBlank ',' = false from rfl), hs, Option.bind_some, Option.pure_def,
      List.map_cons]
termination_by _ j entries => sizeOf j + sizeOf entries

end

/-- The compact text of a document without doubles reads back as the document. -/
theorem read?_render {j : Json} (h : j.Plain) : read? j.render = some j := by
  have hs : StopsNumber [] := fun c hc => nomatch hc
  have hd := document?_chars j h hs _ (Nat.lt_succ_self (chars j).length)
  rw [List.append_nil] at hd
  rw [read?, render, String.toList_ofList, ofChars?, hd]
  rfl

end OracleDuty.Json
