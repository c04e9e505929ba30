/-!
Arithmetic in which an operation that would overflow, or divide by zero, has no result. A computation whose
checked form always has a result never does either.
-/
namespace OracleDuty.Checked

variable {a b : UInt64}

def add? (a b : UInt64) : Option UInt64 :=
  if a.toNat + b.toNat < UInt64.size then some (a + b) else none

def sub? (a b : UInt64) : Option UInt64 := if b.toNat ≤ a.toNat then some (a - b) else none

def mul? (a b : UInt64) : Option UInt64 :=
  if a.toNat * b.toNat < UInt64.size then some (a * b) else none

def div? (a b : UInt64) : Option UInt64 := if b = 0 then none else some (a / b)

def mod? (a b : UInt64) : Option UInt64 := if b = 0 then none else some (a % b)

def quotient? (m n : Nat) : Option Nat := if n = 0 then none else some (m / n)

theorem add?_eq (h : a.toNat + b.toNat < UInt64.size) : add? a b = some (a + b) := if_pos h

theorem sub?_eq (h : b.toNat ≤ a.toNat) : sub? a b = some (a - b) := if_pos h

theorem mul?_eq (h : a.toNat * b.toNat < UInt64.size) : mul? a b = some (a * b) := if_pos h

theorem toNat_pos (h : a ≠ 0) : 0 < a.toNat := by
  apply Nat.pos_of_ne_zero
  intro h0
  exact h (UInt64.toNat_inj.mp h0)

theorem div?_eq (h : b ≠ 0) : div? a b = some (a / b) := if_neg h

theorem mod?_eq (h : b ≠ 0) : mod? a b = some (a % b) := if_neg h

theorem quotient?_eq {m n : Nat} (h : 0 < n) : quotient? m n = some (m / n) := if_neg (Nat.ne_of_gt h)

theorem mul?_eq_ite : mul? a b =
    if a.toNat * b.toNat < UInt64.size then some (UInt64.ofNat (a.toNat * b.toNat)) else none := by
  rw [mul?, UInt64.ofNat_mul, UInt64.ofNat_toNat, UInt64.ofNat_toNat]

end OracleDuty.Checked
