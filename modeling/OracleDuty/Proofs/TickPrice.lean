import Mathlib.Tactic.Ring
import OracleDuty.Price
import OracleDuty.Proofs.Checked
/-!
The price of a tick against the exact quotient. A ratio that is rounded down and then inverted is off by less than
two, however large the exponent is, since the ratio is never below the scale.

Main statement: `ofTick_near`.
-/
namespace OracleDuty.Price

open Checked

/-! ### The inverse of a rounded ratio -/

section Inverse

variable {scale n d : Nat}

theorem scale_le_ratio (hd : 0 < d) (hdn : d ≤ n) : scale ≤ n * scale / d := by
  apply (Nat.le_div_iff_mul_le hd).mpr
  rw [Nat.mul_comm]
  exact Nat.mul_le_mul_right _ hdn

/-- Rounding the ratio down can only raise its inverse. -/
theorem quotient_le_inverse (hs : 0 < scale) (hd : 0 < d) (hdn : d ≤ n) :
    scale * d / n ≤ scale * scale / (n * scale / d) := by
  have hratio : n * scale / d * d ≤ n * scale := Nat.div_mul_le_self _ _
  have hexact : scale * d / n * n ≤ scale * d := Nat.div_mul_le_self _ _
  have hpos : 0 < n * scale / d := Nat.lt_of_lt_of_le hs (scale_le_ratio hd hdn)
  apply (Nat.le_div_iff_mul_le hpos).mpr
  generalize n * scale / d = r at hratio ⊢
  generalize scale * d / n = q at hexact ⊢
  apply Nat.le_of_mul_le_mul_right _ hd
  calc q * r * d = q * (r * d) := Nat.mul_assoc _ _ _
    _ ≤ q * (n * scale) := Nat.mul_le_mul_left _ hratio
    _ = q * n * scale := (Nat.mul_assoc _ _ _).symm
    _ ≤ scale * d * scale := Nat.mul_le_mul_right _ hexact
    _ = scale * scale * d := by ring

/-- The inverse is raised by one at most. -/
theorem inverse_le_quotient_succ (hs : 0 < scale) (hd : 0 < d) (hdn : d ≤ n) :
    scale * scale / (n * scale / d) ≤ scale * d / n + 1 := by
  have hn : 0 < n := Nat.lt_of_lt_of_le hd hdn
  have hratio : n * scale < (n * scale / d + 1) * d := (Nat.div_lt_iff_lt_mul hd).mp (Nat.lt_succ_self _)
  have hexact : scale * d < (scale * d / n + 1) * n := (Nat.div_lt_iff_lt_mul hn).mp (Nat.lt_succ_self _)
  have hle : scale ≤ n * scale / d := scale_le_ratio hd hdn
  have hquotient : scale * d / n ≤ scale := by
    apply Nat.div_le_of_le_mul
    rw [Nat.mul_comm]
    exact Nat.mul_le_mul_right _ hdn
  apply Nat.le_of_lt_succ
  apply (Nat.div_lt_iff_lt_mul (Nat.lt_of_lt_of_le hs hle)).mpr
  generalize n * scale / d = r at hratio hle ⊢
  generalize scale * d / n = q at hexact hquotient ⊢
  -- both roundings together lose less than one of each factor
  have hboth : scale * scale < (q + 1) * (r + 1) := by
    apply Nat.lt_of_mul_lt_mul_right (a := n * d)
    calc scale * scale * (n * d) = n * scale * (scale * d) := by ring
      _ < (r + 1) * d * ((q + 1) * n) := Nat.mul_lt_mul'' hratio hexact
      _ = (q + 1) * (r + 1) * (n * d) := by ring
  rcases Nat.lt_or_ge q r with hlt | hge
  · calc scale * scale < (q + 1) * (r + 1) := hboth
      _ = (q + 1) * r + (q + 1) := Nat.mul_succ _ _
      _ ≤ (q + 1) * r + r := Nat.add_le_add_left hlt _
      _ = (q + 1 + 1) * r := (Nat.succ_mul _ _).symm
  · -- the ratio is at parity
    have hr : r = scale := Nat.le_antisymm (Nat.le_trans hge hquotient) hle
    rw [hr]
    exact Nat.mul_lt_mul_of_pos_right (Nat.lt_succ_of_lt (Nat.lt_succ_of_le (hr ▸ hge))) hs

end Inverse

/-! ### Prices -/

/-- The price of a tick with each division checked. -/
def ofTick? (tick : Int64) : Option Word := do
  let e := tick.toInt.natAbs
  if 0 ≤ tick.toInt then
    let ratio ← quotient? (Nat.pow 10001 e * scale) (Nat.pow 10000 e)
    let price ← quotient? (scale * scale) ratio
    return saturate price
  else
    let price ← quotient? (scale * Nat.pow 10001 e) (Nat.pow 10000 e)
    return saturate price

theorem scale_pos : 0 < scale := by decide

theorem base_pos (e : Nat) : 0 < Nat.pow 10000 e := Nat.pow_pos (by decide)

theorem base_le (e : Nat) : Nat.pow 10000 e ≤ Nat.pow 10001 e := Nat.pow_le_pow_left (by decide) e

theorem toNat_saturate (n : Nat) : (saturate n).toNat = min n (Nat.pow 2 256 - 1) := by
  have hlt : min n (Nat.pow 2 256 - 1) < Nat.pow 2 256 :=
    Nat.lt_of_le_of_lt (Nat.min_le_right _ _) (by decide)
  rw [saturate, BitVec.toNat_ofNat]
  exact Nat.mod_eq_of_lt hlt

/-- No price is divided by zero: the base is positive, and so is the ratio, which is at least one whole token. -/
theorem ofTick?_eq (tick : Int64) : ofTick? tick = some (ofTick tick) := by
  have hbase := base_pos tick.toInt.natAbs
  have hone : scale ≤ Nat.pow 10001 tick.toInt.natAbs * scale / Nat.pow 10000 tick.toInt.natAbs :=
    scale_le_ratio hbase (base_le _)
  have hratio := Nat.lt_of_lt_of_le scale_pos hone
  unfold ofTick? ofTick
  dsimp only
  by_cases h : 0 ≤ tick.toInt
  · rw [if_pos h, if_pos h, quotient?_eq hbase, Option.bind_eq_bind, Option.bind_some,
      quotient?_eq hratio]
    rfl
  · rw [if_neg h, if_neg h, quotient?_eq hbase]
    rfl

/-- The price of a tick that is not negative, which is never above one whole token. -/
theorem toNat_ofTick_of_nonneg {tick : Int64} (h : 0 ≤ tick.toInt) : (ofTick tick).toNat =
    scale * scale / (Nat.pow 10001 tick.toInt.natAbs * scale / Nat.pow 10000 tick.toInt.natAbs) := by
  have hratio : scale ≤ Nat.pow 10001 tick.toInt.natAbs * scale / Nat.pow 10000 tick.toInt.natAbs :=
    scale_le_ratio (base_pos _) (base_le _)
  rw [ofTick, if_pos h, toNat_saturate]
  apply Nat.min_eq_left
  calc scale * scale / (Nat.pow 10001 tick.toInt.natAbs * scale / Nat.pow 10000 tick.toInt.natAbs)
      ≤ scale * scale / scale := Nat.div_le_div_left hratio scale_pos
    _ ≤ Nat.pow 2 256 - 1 := by decide

theorem toNat_ofTick_of_neg {tick : Int64} (h : tick.toInt < 0) : (ofTick tick).toNat =
    min (scale * Nat.pow 10001 tick.toInt.natAbs / Nat.pow 10000 tick.toInt.natAbs)
      (Nat.pow 2 256 - 1) := by
  rw [ofTick, if_neg (Int.not_le.mpr h), toNat_saturate]

/-- The price of every tick has all its divisors positive. For a tick that is not negative it is the exact
quotient rounded down, or one more; for a negative tick it is the exact quotient rounded down, with the largest
word for everything above it. -/
theorem ofTick_near (tick : Int64) :
    let n := Nat.pow 10001 tick.toInt.natAbs
    let d := Nat.pow 10000 tick.toInt.natAbs
    ofTick? tick = some (ofTick tick) ∧
    (0 ≤ tick.toInt →
      scale * d / n ≤ (ofTick tick).toNat ∧ (ofTick tick).toNat ≤ scale * d / n + 1) ∧
    (tick.toInt < 0 → (ofTick tick).toNat = min (scale * n / d) (Nat.pow 2 256 - 1)) := by
  intro n d
  have hd : 0 < d := base_pos _
  have hdn : d ≤ n := base_le _
  refine ⟨ofTick?_eq tick, ?_, toNat_ofTick_of_neg⟩
  intro h
  rw [toNat_ofTick_of_nonneg h]
  exact ⟨quotient_le_inverse scale_pos hd hdn, inverse_le_quotient_succ scale_pos hd hdn⟩

/-- Ten ticks above parity the price is one more than the quotient, ten ticks below it is the quotient. -/
theorem ofTick_near_ten : (ofTick 10).toNat = 999000549780071480 ∧
    scale * Nat.pow 10000 10 / Nat.pow 10001 10 = 999000549780071479 ∧
    (ofTick 10).toNat ≤ 999000549780071479 + 1 ∧
    (ofTick (-10)).toNat = scale * Nat.pow 10001 10 / Nat.pow 10000 10 := by
  have hquotient : scale * Nat.pow 10000 10 / Nat.pow 10001 10 = 999000549780071479 := by decide +kernel
  have habove := ((ofTick_near 10).2.1 (by decide)).2
  have hbelow := (ofTick_near (-10)).2.2 (by decide)
  refine ⟨by decide +kernel, hquotient, Nat.le_trans habove (Nat.le_of_eq (congrArg (· + 1) hquotient)), ?_⟩
  exact hbelow.trans (by decide +kernel)

end OracleDuty.Price
