/-!
Decimal text of numbers. Readers take digits only, with a plus sign where it is named, and refuse a value
that its width does not hold.
-/
namespace OracleDuty.Decimal

/-- The number that a non-empty run of digits spells; leading zeros are allowed. -/
def ofDigits? (cs : List Char) : Option Nat :=
  if cs ≠ [] ∧ cs.all Char.isDigit then some (Nat.ofDigitChars 10 cs 0) else none

def unsigned? : List Char → Option Nat
  | '+' :: rest => ofDigits? rest
  | cs => ofDigits? cs

def uint64? (s : String) : Option UInt64 :=
  (unsigned? s.toList).bind fun n => if n < UInt64.size then some (UInt64.ofNat n) else none

/-- The digits of a number read back as it. -/
theorem ofDigits?_toDigits (n : Nat) : ofDigits? (Nat.toDigits 10 n) = some n := by
  have hne : Nat.toDigits 10 n ≠ [] := Nat.toDigits_ne_nil
  have hall : (Nat.toDigits 10 n).all Char.isDigit = true := by
    rw [List.all_eq_true]
    intro c hc
    exact Nat.isDigit_of_mem_toDigits (by decide) (by decide) hc
  simp [ofDigits?, hne, hall, Nat.ofDigitChars_ten_toDigits]

end OracleDuty.Decimal
