import OracleDuty.Decimal
import OracleDuty.Word
/-!
Decimal texts read back: the digits of a number are recognised wherever no further digit follows them.

Main statements: `takeWhile_isDigit_append`, `toDigits_eq_cons` and `uint64?_toString`.
-/
namespace OracleDuty.Decimal

def StopsDigits (rest : List Char) : Prop := ∀ c, rest.head? = some c → c.isDigit = false

theorem isDigit_of_mem_toDigits {n : Nat} {c : Char} (h : c ∈ Nat.toDigits 10 n) :
    c.isDigit = true :=
  Nat.isDigit_of_mem_toDigits (by decide) (by decide) h

theorem takeWhile_isDigit_of_stops {rest : List Char} (h : StopsDigits rest) :
    rest.takeWhile Char.isDigit = [] := by
  cases rest with
  | nil => rfl
  | cons c rest => rw [List.takeWhile_cons_of_neg (by simp [h c rfl])]

theorem dropWhile_isDigit_of_stops {rest : List Char} (h : StopsDigits rest) :
    rest.dropWhile Char.isDigit = rest := by
  cases rest with
  | nil => rfl
  | cons c rest => rw [List.dropWhile_cons_of_neg (by simp [h c rfl])]

theorem takeWhile_isDigit_append {ds rest : List Char} (hd : ∀ c ∈ ds, c.isDigit = true)
    (hr : StopsDigits rest) : (ds ++ rest).takeWhile Char.isDigit = ds := by
  rw [List.takeWhile_append_of_pos hd, takeWhile_isDigit_of_stops hr, List.append_nil]

theorem dropWhile_isDigit_append {ds rest : List Char} (hd : ∀ c ∈ ds, c.isDigit = true)
    (hr : StopsDigits rest) : (ds ++ rest).dropWhile Char.isDigit = rest := by
  rw [List.dropWhile_append_of_pos hd, dropWhile_isDigit_of_stops hr]

theorem digitChar_ne_zero {d : Nat} (h : d < 10) (h0 : 0 < d) : d.digitChar ≠ '0' := by
  have all : ∀ d < 10, 0 < d → d.digitChar ≠ '0' := by decide
  exact all d h h0

/-- No positive number is written with a zero in front. -/
theorem toDigits_eq_cons {n : Nat} (h : 0 < n) :
    ∃ c cs, Nat.toDigits 10 n = c :: cs ∧ c ≠ '0' := by
  -- the first digit is that of the number without its last digit
  induction n using Nat.strongRecOn with
  | ind n ih =>
    by_cases hn : n < 10
    · exact ⟨n.digitChar, [], Nat.toDigits_of_lt_base hn, digitChar_ne_zero hn h⟩
    · obtain ⟨c, cs, hc, h0⟩ := ih (n / 10) (by omega) (by omega)
      refine ⟨c, cs ++ [(n % 10).digitChar], ?_, h0⟩
      rw [Nat.toDigits_eq_if (by decide), if_neg hn, hc, List.cons_append]

theorem toDigits_ne_plus {n : Nat} {cs : List Char} : Nat.toDigits 10 n ≠ '+' :: cs := by
  intro h
  have hc : '+' ∈ Nat.toDigits 10 n := by simp [h]
  exact absurd (isDigit_of_mem_toDigits hc) (by decide)

theorem unsigned?_toDigits (n : Nat) : unsigned? (Nat.toDigits 10 n) = some n := by
  rw [unsigned?.eq_2 _ fun rest h => toDigits_ne_plus h]
  exact ofDigits?_toDigits n

theorem uint64?_toString (n : UInt64) : uint64? (toString n) = some n := by
  have ht : (toString n).toList = Nat.toDigits 10 n.toNat := Nat.toList_repr
  rw [uint64?, ht, unsigned?_toDigits]
  simp [n.toNat_lt, UInt64.size]

end OracleDuty.Decimal
