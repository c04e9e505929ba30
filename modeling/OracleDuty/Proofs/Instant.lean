import OracleDuty.Instant
import OracleDuty.Proofs.Decimal
/-!
The text of an instant reads back as the instant, whatever its year, fraction or leap second.

Main statement: `ofText?_text`.
-/
namespace OracleDuty.Instant

open Decimal (StopsDigits)

/-! ### Fields of fixed width -/

theorem isDigit_of_mem_padded {width n : Nat} {c : Char} (h : c ∈ padded width n) :
    c.isDigit = true := by
  rcases List.mem_append.mp h with h | h
  · rw [(List.mem_replicate.mp h).2]
    rfl
  · exact Decimal.isDigit_of_mem_toDigits h

theorem length_padded {width n : Nat} (h : (Nat.toDigits 10 n).length ≤ width) :
    (padded width n).length = width := by
  simp only [padded, List.length_append, List.length_replicate]
  omega

theorem padded_ne_nil (width n : Nat) : padded width n ≠ [] := by
  intro h
  exact Nat.toDigits_ne_nil (List.append_eq_nil_iff.mp h).2

theorem ofDigitChars_padded (width n : Nat) : Nat.ofDigitChars 10 (padded width n) 0 = n := by
  rw [padded, Nat.ofDigitChars_append, Nat.ofDigitChars_replicate_zero, Nat.mul_zero,
    Nat.ofDigitChars_ten_toDigits]

theorem takeWhile_padded (width n : Nat) {rest : List Char} (h : StopsDigits rest) :
    (padded width n ++ rest).takeWhile Char.isDigit = padded width n :=
  Decimal.takeWhile_isDigit_append (fun _ => isDigit_of_mem_padded) h

/-- A number that fills its width is read, whatever follows it. -/
theorem digits?_padded {width n : Nat} (h : (Nat.toDigits 10 n).length ≤ width)
    (rest : List Char) : digits? width (padded width n ++ rest) = some (n, rest) := by
  have hl := length_padded h
  have hs : StopsDigits [] := fun _ h => nomatch h
  have ht : (padded width n).takeWhile Char.isDigit = padded width n := by
    simpa using takeWhile_padded width n hs
  simp only [digits?, List.take_left' hl, ht, List.isEmpty_iff, padded_ne_nil, if_false,
    ofDigitChars_padded, List.drop_left]

/-- A number of any width is read up to the end of its digits. -/
theorem digits?_padded_all (width n : Nat) {rest : List Char} (h : StopsDigits rest) :
    digits? (padded width n ++ rest).length (padded width n ++ rest) = some (n, rest) := by
  simp only [digits?, List.take_length, takeWhile_padded width n h, List.isEmpty_iff,
    padded_ne_nil, if_false, ofDigitChars_padded, List.drop_left]

theorem isBlank_eq_false_of_isDigit {c : Char} (h : c.isDigit = true) :
    Text.isBlank c = false := by
  have hv : 48 ≤ c.val ∧ c.val ≤ 57 := by simpa [Char.isDigit] using h
  have hn : 48 ≤ c.toNat ∧ c.toNat ≤ 57 := hv
  simp only [Text.isBlank, Bool.or_eq_false_iff, Bool.and_eq_false_iff, decide_eq_false_iff_not,
    beq_eq_false_iff_ne]
  omega

theorem skipBlank_cons {c : Char} (h : Text.isBlank c = false) (rest : List Char) :
    Text.skipBlank (c :: rest) = c :: rest := by
  rw [Text.skipBlank, List.dropWhile_cons_of_neg (by simp [h])]

theorem padded_eq_cons (width n : Nat) :
    ∃ c cs, padded width n = c :: cs ∧ c.isDigit = true := by
  obtain ⟨c, cs, hc⟩ := List.exists_cons_of_ne_nil (padded_ne_nil width n)
  have hm : c ∈ padded width n := by rw [hc]; exact List.mem_cons_self
  exact ⟨c, cs, hc, isDigit_of_mem_padded hm⟩

theorem skipBlank_padded (width n : Nat) (rest : List Char) :
    Text.skipBlank (padded width n ++ rest) = padded width n ++ rest := by
  obtain ⟨c, cs, hc, hd⟩ := padded_eq_cons width n
  rw [hc, List.cons_append, skipBlank_cons (isBlank_eq_false_of_isDigit hd)]

theorem length_toDigits_le_two {n : Nat} (h : n < 100) : (Nat.toDigits 10 n).length ≤ 2 :=
  (Nat.length_toDigits_le_iff (by decide) (by decide)).mpr (by omega)

theorem field?_padded {n : Nat} (h : n < 100) (rest : List Char) :
    field? (padded 2 n ++ rest) = some (n, rest) := by
  rw [field?, skipBlank_padded, digits?_padded (length_toDigits_le_two h)]

theorem separator?_cons {c : Char} (h : Text.isBlank c = false) (rest : List Char) :
    separator? c (c :: rest) = some rest := by
  simp only [separator?, skipBlank_cons h, if_true]

/-! ### Years and fractions -/

/-- Years of more or fewer than four digits carry a sign, and read back. -/
theorem year?_yearChars (year : Int) {rest : List Char} (h : StopsDigits rest) :
    year? (yearChars year ++ rest) = some (year, rest) := by
  rw [yearChars]
  split
  · next hy =>
    obtain ⟨c, cs, hc, hd⟩ := padded_eq_cons 4 year.toNat
    have hl : (Nat.toDigits 10 year.toNat).length ≤ 4 :=
      (Nat.length_toDigits_le_iff (by decide) (by decide)).mpr (by omega)
    have ht := digits?_padded hl rest
    -- a digit is no sign
    have hm : c ≠ '-' ∧ c ≠ '+' := by
      constructor
      · intro hc
        rw [hc] at hd
        exact absurd hd (by decide)
      · intro hc
        rw [hc] at hd
        exact absurd hd (by decide)
    rw [year?, skipBlank_padded]
    rw [hc, List.cons_append] at ht ⊢
    split
    · next h => exact absurd (List.cons.inj h).1 hm.1
    · next h => exact absurd (List.cons.inj h).1 hm.2
    · rw [ht, Option.map_some]
      simp only [Option.some.injEq, Prod.mk.injEq, and_true]
      omega
  · next hy =>
    split
    · next hn =>
      rw [year?, List.cons_append, skipBlank_cons (by decide)]
      simp only [digits?_padded_all 4 year.natAbs h, Option.map_some, Option.some.injEq,
        Prod.mk.injEq, and_true]
      omega
    · next hn =>
      rw [year?, List.cons_append, skipBlank_cons (by decide)]
      simp only [digits?_padded_all 4 year.natAbs h, Option.map_some, Option.some.injEq,
        Prod.mk.injEq, and_true]
      omega

/-- Digits after the point read back as nanoseconds, zeros being added on the right. -/
theorem fraction?_padded {width n : Nat} (hw : width ≤ 9)
    (h : (Nat.toDigits 10 n).length ≤ width) {rest : List Char} (hr : StopsDigits rest) :
    fraction? ('.' :: padded width n ++ rest) = some (n * Nat.pow 10 (9 - width), rest) := by
  have hl := length_padded h
  have hd : (padded width n ++ rest).dropWhile Char.isDigit = rest :=
    Decimal.dropWhile_isDigit_append (fun _ => isDigit_of_mem_padded) hr
  simp only [fraction?, List.cons_append, takeWhile_padded width n hr, List.isEmpty_iff,
    padded_ne_nil, if_false, List.take_of_length_le (show (padded width n).length ≤ 9 by omega), hl,
    ofDigitChars_padded, hd]

/-- Nanoseconds are read back from as few digits as they need. -/
theorem fraction?_fractionChars {nano : Nat} (h : nano < 1000000000) (rest : List Char)
    (hr : StopsDigits rest) (hp : rest.head? ≠ some '.') :
    fraction? (fractionChars nano ++ rest) = some (nano, rest) := by
  have hlen (width n : Nat) (hw : 0 < width) (hn : n < 10 ^ width) :
      (Nat.toDigits 10 n).length ≤ width :=
    (Nat.length_toDigits_le_iff (by decide) hw).mpr hn
  rw [fractionChars]
  split
  · next h0 =>
    subst h0
    rw [List.nil_append, fraction?.eq_2]
    rintro r rfl
    exact hp rfl
  · split
    · next h6 =>
      rw [fraction?_padded (by decide) (hlen 3 _ (by decide) (by omega)) hr]
      simp only [Option.some.injEq, Prod.mk.injEq, and_true, Nat.pow_eq]
      omega
    · split
      · next h3 =>
        rw [fraction?_padded (by decide) (hlen 6 _ (by decide) (by omega)) hr]
        simp only [Option.some.injEq, Prod.mk.injEq, and_true, Nat.pow_eq]
        omega
      · rw [fraction?_padded (by decide) (hlen 9 _ (by decide) (by omega)) hr]
        simp

/-! ### The whole text -/

theorem daysInMonth_le (year : Int) (month : Nat) : daysInMonth year month ≤ 31 := by
  rw [daysInMonth]
  repeat' split
  all_goals decide

theorem ofNumbers?_eq (d : Date) : Date.ofNumbers? d.year d.month d.day = some d := by
  rw [Date.ofNumbers?, dif_pos d.valid]

theorem ofParts?_eq (t : Instant) : ofParts? t.date t.second t.nano = some t := by
  rw [ofParts?, dif_pos t.valid]

theorem bounds (t : Instant) : t.date.month < 100 ∧ t.date.day < 100 ∧ t.second < 86400 ∧
    t.nano < 2000000000 ∧ (1000000000 ≤ t.nano → t.second % 60 = 59) := by
  have hd := t.date.valid
  have ht := t.valid
  simp only [isDate, Bool.and_eq_true, decide_eq_true_eq] at hd
  simp only [isTime, Bool.and_eq_true, Bool.or_eq_true, decide_eq_true_eq, beq_iff_eq] at ht
  have hm := daysInMonth_le t.date.year t.date.month
  omega

/-- A time of day with the second that is written for it, sixty for a leap second. -/
theorem ofLocal?_written (t : Instant) {second nano : Nat}
    (h : second < 60 ∧ t.second % 60 = second ∧ t.nano = nano ∨
      second = 60 ∧ t.second % 60 = 59 ∧ t.nano = nano + 1000000000) :
    (let (second, nano) := if second = 60 then (59, nano + 1000000000) else (second, nano)
     ofLocal? t.date (t.second / 3600 * 3600 + t.second / 60 % 60 * 60 + second) nano 0) =
      some t := by
  have hb := t.bounds.2.2.1
  rcases h with ⟨hs, hm, hn⟩ | ⟨hs, hm, hn⟩
  · -- no leap second
    have he : t.second / 3600 * 3600 + t.second / 60 % 60 * 60 + second = t.second := by omega
    rw [if_neg (by omega)]
    simp only [he, ← hn]
    rw [ofLocal?]
    simp only [Int.sub_zero, Int.toNat_natCast]
    rw [if_neg (by omega), if_neg (by omega), ofParts?_eq]
  · have he : t.second / 3600 * 3600 + t.second / 60 % 60 * 60 + 59 = t.second := by omega
    rw [if_pos hs]
    simp only [he, ← hn]
    rw [ofLocal?]
    simp only [Int.sub_zero, Int.toNat_natCast]
    rw [if_neg (by omega), if_neg (by omega), ofParts?_eq]

/-- The text of an instant reads back as the instant. -/
theorem ofText?_text (t : Instant) : ofText? t.text = some t := by
  obtain ⟨hmonth, hday, hsecond, hnano, hleap⟩ := t.bounds
  rw [ofText?, text, String.toList_ofList, chars]
  generalize hs : t.second % 60 + (if 1000000000 ≤ t.nano then 1 else 0) = second
  generalize hn : (if 1000000000 ≤ t.nano then t.nano - 1000000000 else t.nano) = nano
  have hw : second < 60 ∧ t.second % 60 = second ∧ t.nano = nano ∨
      second = 60 ∧ t.second % 60 = 59 ∧ t.nano = nano + 1000000000 := by
    split at hs <;> split at hn <;> omega
  have hstop (c : Char) (rest : List Char) (hc : c.isDigit = false) : StopsDigits (c :: rest) := by
    intro d hd
    cases hd
    exact hc
  have hz : offset? (Text.skipBlank ['Z']) = some (0, []) := rfl
  have hlt : nano < 1000000000 := by split at hn <;> omega
  have hfraction := fraction?_fractionChars hlt ['Z'] (hstop 'Z' [] rfl) (by decide)
  have hlocal := ofLocal?_written t hw
  simp only [List.append_assoc, List.cons_append]
  rw [ofChars?]
  have hg : t.second / 3600 ≤ 23 ∧ t.second / 60 % 60 ≤ 59 ∧ second ≤ 60 := by omega
  -- the fields one after the other, each with what follows it
  refine Option.bind_eq_some_iff.mpr ⟨_, year?_yearChars _ (hstop '-' _ rfl), ?_⟩
  refine Option.bind_eq_some_iff.mpr ⟨_, separator?_cons rfl _, ?_⟩
  refine Option.bind_eq_some_iff.mpr ⟨_, field?_padded hmonth _, ?_⟩
  refine Option.bind_eq_some_iff.mpr ⟨_, separator?_cons rfl _, ?_⟩
  refine Option.bind_eq_some_iff.mpr ⟨_, field?_padded hday _, ?_⟩
  refine Option.bind_eq_some_iff.mpr ⟨_, rfl, ?_⟩
  refine Option.bind_eq_some_iff.mpr ⟨_, field?_padded (by omega) _, ?_⟩
  refine Option.bind_eq_some_iff.mpr ⟨_, separator?_cons rfl _, ?_⟩
  refine Option.bind_eq_some_iff.mpr ⟨_, field?_padded (by omega) _, ?_⟩
  refine Option.bind_eq_some_iff.mpr ⟨_, separator?_cons rfl _, ?_⟩
  refine Option.bind_eq_some_iff.mpr ⟨_, field?_padded (by omega) _, ?_⟩
  refine Option.bind_eq_some_iff.mpr ⟨_, hfraction, ?_⟩
  refine Option.bind_eq_some_iff.mpr ⟨_, hz, ?_⟩
  refine Option.bind_eq_some_iff.mpr ⟨(), rfl, ?_⟩
  refine Option.bind_eq_some_iff.mpr ⟨(), if_pos hg, ?_⟩
  exact Option.bind_eq_some_iff.mpr ⟨_, ofNumbers?_eq _, hlocal⟩

end OracleDuty.Instant
