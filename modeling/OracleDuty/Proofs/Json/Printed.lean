import OracleDuty.Proofs.Json.RoundTrip
/-!
The compact text of a document holds no control characters, whatever its texts hold: it never breaks a line.

Main statement: `newline_not_mem_render`.
-/
namespace OracleDuty.Json

def Printed (cs : List Char) : Prop := ∀ c ∈ cs, ' ' ≤ c

theorem printed_nil : Printed [] := List.forall_mem_nil _

theorem printed_cons {c : Char} {cs : List Char} (hc : ' ' ≤ c) (h : Printed cs) : Printed (c :: cs) :=
  List.forall_mem_cons.mpr ⟨hc, h⟩

theorem printed_of_all {cs : List Char} (h : cs.all (fun c => decide (' ' ≤ c)) = true) : Printed cs :=
  fun c hc => of_decide_eq_true (List.all_eq_true.mp h c hc)

theorem Printed.append {cs cs' : List Char} (h : Printed cs) (h' : Printed cs') : Printed (cs ++ cs') :=
  List.forall_mem_append.mpr ⟨h, h'⟩

theorem printed_digit {n : Nat} (h : n < 16) : ' ' ≤ Hex.digit n := by
  have all : ∀ n < 16, ' ' ≤ Hex.digit n := by decide
  exact all n h

/-- A control character is given by letters and digits. -/
theorem printed_escape (c : Char) : Printed (escape c) := by
  unfold escape
  split
  case h_8 =>
    split
    · next hc =>
      have hlt := toNat_lt_of_lt_space hc
      have hhigh := printed_digit (show c.toNat / 16 < 16 by omega)
      have hlow := printed_digit (show c.toNat % 16 < 16 by omega)
      intro d hd
      simp only [List.mem_cons, List.not_mem_nil, or_false] at hd
      rcases hd with rfl | rfl | rfl | rfl | rfl | rfl
      · decide
      · decide
      · decide
      · decide
      · exact hhigh
      · exact hlow
    · next hc => exact printed_cons (Char.not_lt.mp hc) printed_nil
  all_goals exact printed_cons (by decide) (printed_cons (by decide) printed_nil)

theorem printed_quote (s : String) : Printed (quote s) := by
  have hbody : Printed (s.toList.flatMap escape) := by
    intro c hc
    obtain ⟨d, _, hd⟩ := List.mem_flatMap.mp hc
    exact printed_escape d c hd
  exact printed_cons (by decide) (hbody.append (printed_cons (by decide) printed_nil))

theorem printed_toDigits (n : Nat) : Printed (Nat.toDigits 10 n) := by
  intro c hc
  have hdigit := Decimal.isDigit_of_mem_toDigits hc
  have hzero : '0' ≤ c := (Bool.and_eq_true_iff.mp hdigit).1 |> of_decide_eq_true
  exact Char.le_trans (by decide) hzero

theorem printed_integerChars (i : Int) : Printed (integerChars i) := by
  cases i with
  | ofNat n => exact printed_toDigits n
  | negSucc n => exact printed_cons (by decide) (printed_toDigits (n + 1))

mutual

/-- The text of a document begins with no blank. -/
theorem printed_chars : (j : Json) → j.Plain → Printed (chars j)
  | .null, _ => printed_of_all rfl
  | .bool true, _ => printed_of_all rfl
  | .bool false, _ => printed_of_all rfl
  | .float _, hj => absurd hj (by simp [Plain])
  | .malformed, hj => absurd hj (by simp [Plain])
  | .integer i, _ => printed_integerChars i
  | .string s, _ => printed_quote s
  | .array [], _ => printed_of_all rfl
  | .array (j :: items), hj => by
    obtain ⟨hj, hi⟩ : j.Plain ∧ PlainAll items := by simpa only [Plain, PlainAll] using hj
    exact printed_cons (by decide) ((printed_chars j hj).append (printed_itemChars items hi))
  | .object [], _ => printed_of_all rfl
  | .object ((k, j) :: entries), hj => by
    obtain ⟨hj, he⟩ : j.Plain ∧ PlainEntries entries := by simpa only [Plain, PlainEntries] using hj
    have hentry := (printed_quote k).append (printed_cons (show ' ' ≤ ':' by decide) (printed_chars j hj))
    exact printed_cons (by decide) (hentry.append (printed_entryChars entries he))

theorem printed_itemChars : (items : List Json) → PlainAll items → Printed (itemChars items)
  | [], _ => printed_of_all rfl
  | j :: items, h =>
    printed_cons (by decide) ((printed_chars j h.1).append (printed_itemChars items h.2))

theorem printed_entryChars : (entries : List (String × Json)) → PlainEntries entries →
    Printed (entryChars entries)
  | [], _ => printed_of_all rfl
  | (k, j) :: entries, h => by
    have hentry := (printed_quote k).append (printed_cons (show ' ' ≤ ':' by decide) (printed_chars j h.1))
    exact printed_cons (by decide) (hentry.append (printed_entryChars entries h.2))

end

/-- The compact text of a document is on one line. -/
theorem newline_not_mem_render {j : Json} (h : j.Plain) : '\n' ∉ j.render.toList := by
  intro hmem
  rw [render, String.toList_ofList] at hmem
  exact absurd (printed_chars j h _ hmem) (by decide)

end OracleDuty.Json
