import Mathlib.Order.Monotone.Basic
import Mathlib.Tactic.Ring
import OracleDuty.Proofs.PriceReport
import OracleDuty.Proofs.TickPrice
/-!
The order of prices: what rises faster is not priced higher. All roundings on the way from the cumulatives to the
price keep the order, and so do the change of the formula at parity and the cut to the largest word.

Main statements: `ofTick_antitone` for ticks, and `price_antitone` for the cumulatives that a report observes.
-/
namespace OracleDuty

namespace Price

/-! ### Ticks -/

/-- The price of a tick that is `e` below parity, before it is cut to a word. Above parity it is inverted. -/
def ratio (e : Nat) : Nat := Nat.pow 10001 e * scale / Nat.pow 10000 e

theorem scale_le_ratio_self (e : Nat) : scale ≤ ratio e := scale_le_ratio (base_pos e) (base_le e)

/-- One more tick multiplies the ratio by more than one, and its rounding takes no more away. -/
theorem ratio_le_succ (e : Nat) : ratio e ≤ ratio (e + 1) := by
  have hnumerator : 10001 * (Nat.pow 10001 e * scale) = Nat.pow 10001 (e + 1) * scale := by
    change _ = Nat.pow 10001 e * 10001 * scale
    ring
  have hdenominator : 10000 * Nat.pow 10000 e = Nat.pow 10000 (e + 1) := Nat.mul_comm _ _
  calc ratio e = 10000 * (Nat.pow 10001 e * scale) / (10000 * Nat.pow 10000 e) :=
        (Nat.mul_div_mul_left _ _ (by decide)).symm
    _ ≤ 10001 * (Nat.pow 10001 e * scale) / (10000 * Nat.pow 10000 e) :=
        Nat.div_le_div_right (Nat.mul_le_mul_right _ (by decide))
    _ = ratio (e + 1) := by rw [hnumerator, hdenominator, ratio]

theorem ratio_mono : Monotone ratio := monotone_nat_of_le_succ ratio_le_succ

variable {tick later : Int64}

theorem toNat_ofTick_eq_inverse (h : 0 ≤ tick.toInt) :
    (ofTick tick).toNat = scale * scale / ratio tick.toInt.natAbs := toNat_ofTick_of_nonneg h

theorem toNat_ofTick_eq_ratio (h : tick.toInt < 0) :
    (ofTick tick).toNat = min (ratio tick.toInt.natAbs) (Nat.pow 2 256 - 1) := by
  rw [toNat_ofTick_of_neg h, Nat.mul_comm scale, ratio]

theorem ofTick_le_scale (h : 0 ≤ tick.toInt) : (ofTick tick).toNat ≤ scale := by
  rw [toNat_ofTick_eq_inverse h]
  apply Nat.div_le_of_le_mul
  exact Nat.mul_le_mul_right _ (scale_le_ratio_self _)

theorem scale_le_ofTick (h : tick.toInt < 0) : scale ≤ (ofTick tick).toNat := by
  rw [toNat_ofTick_eq_ratio h]
  exact Nat.le_min.mpr ⟨scale_le_ratio_self _, by decide⟩

/-- A higher tick is not priced higher. -/
theorem ofTick_antitone (h : tick.toInt ≤ later.toInt) : ofTick later ≤ ofTick tick := by
  apply BitVec.le_def.mpr
  -- parity separates the two formulas
  by_cases htick : 0 ≤ tick.toInt
  · have hlater : 0 ≤ later.toInt := Int.le_trans htick h
    have hratio : ratio tick.toInt.natAbs ≤ ratio later.toInt.natAbs := ratio_mono (by omega)
    have hpos : 0 < ratio tick.toInt.natAbs := Nat.lt_of_lt_of_le scale_pos (scale_le_ratio_self _)
    rw [toNat_ofTick_eq_inverse htick, toNat_ofTick_eq_inverse hlater]
    exact Nat.div_le_div_left hratio hpos
  · have htick' : tick.toInt < 0 := Int.not_le.mp htick
    by_cases hlater : 0 ≤ later.toInt
    · exact Nat.le_trans (ofTick_le_scale hlater) (scale_le_ofTick htick')
    · have hlater' : later.toInt < 0 := Int.not_le.mp hlater
      have hratio : ratio later.toInt.natAbs ≤ ratio tick.toInt.natAbs := ratio_mono (by omega)
      rw [toNat_ofTick_eq_ratio htick', toNat_ofTick_eq_ratio hlater']
      exact min_le_min_right _ hratio

/-! ### Cumulatives -/

/-- The average of what rises faster is no lower. -/
theorem averageTick_mono {window : UInt32} (hwindow : 1 < window.toNat) {a₀ a₁ b₀ b₁ : Int64}
    (hrise : a₁.toInt - a₀.toInt ≤ b₁.toInt - b₀.toInt) :
    ∃ tick later, averageTick [a₀, a₁] window = .ok tick ∧ averageTick [b₀, b₁] window = .ok later ∧
      tick.toInt ≤ later.toInt := by
  obtain ⟨tick, htick, heq⟩ := exists_averageTick hwindow a₀ a₁
  obtain ⟨later, hlater, heq'⟩ := exists_averageTick hwindow b₀ b₁
  refine ⟨tick, later, htick, hlater, ?_⟩
  rw [heq, heq']
  exact Int.ediv_le_ediv (by omega) hrise

end Price

namespace Duty.SubmitPrices

/-- The price of a job is that of the average between the cumulatives that it observes, and of nothing else. -/
theorem ends_price_iff {s : Settings} {pool : Address} (hpool : s.twapPool = some pool) {j : Job}
    {cumulatives : List Int64} {tick : Int64}
    (htick : Price.averageTick cumulatives Price.window = .ok tick) {r : Except Report Word} :
    (j.price s).run.Ends [⟨.observe pool [43200, 0] j.block, .ok cumulatives⟩] r ↔
      r = .ok (Price.ofTick tick) := by
  have hends : (j.price s).run.Ends [⟨.observe pool [43200, 0] j.block, .ok cumulatives⟩]
      (.ok (Price.ofTick tick)) := by
    unfold Job.price
    rw [hpool]
    refine ends_run_bind.mpr ⟨cumulatives, _, [], rfl, ends_noting.mpr (ends_request.mpr rfl), ?_⟩
    rw [htick]
    exact .refl _
  constructor
  · intro h
    obtain ⟨-, hr, -⟩ := h.unique hends (rfl : _ ++ [] = _ ++ [])
    exact hr
  · rintro rfl
    exact hends

/-- No tick is priced higher than a lower one. So of two observations over the window the one that rises less has
the higher price, or the same: whoever computes it and at whatever block. -/
theorem price_antitone :
    (∀ tick later : Int64, tick ≤ later → Price.ofTick later ≤ Price.ofTick tick) ∧
    ∀ a₀ a₁ b₀ b₁ : Int64, a₁.toInt - a₀.toInt ≤ b₁.toInt - b₀.toInt →
      ∃ p q : Word, q ≤ p ∧ ∀ s pool, s.twapPool = some pool → ∀ (j : Job) (r : Except Report Word),
        ((j.price s).run.Ends [⟨.observe pool [43200, 0] j.block, .ok [a₀, a₁]⟩] r ↔ r = .ok p) ∧
        ((j.price s).run.Ends [⟨.observe pool [43200, 0] j.block, .ok [b₀, b₁]⟩] r ↔ r = .ok q) := by
  refine ⟨fun tick later h => Price.ofTick_antitone (Int64.le_iff_toInt_le.mp h), ?_⟩
  intro a₀ a₁ b₀ b₁ hrise
  obtain ⟨tick, later, htick, hlater, hle⟩ := Price.averageTick_mono Price.one_lt_window hrise
  refine ⟨Price.ofTick tick, Price.ofTick later, Price.ofTick_antitone hle, ?_⟩
  intro s pool hpool j r
  exact ⟨ends_price_iff hpool htick, ends_price_iff hpool hlater⟩

/-- From a tick below parity to one above it: the price falls from above a whole token to below one. -/
theorem price_antitone_across_parity : ∃ p q : Word, q ≤ p ∧
    p.toNat = 1000100000000000000 ∧ q.toNat = 999900009999000099 ∧
    (Job.price Sample.settings ⟨200⟩).run.Ends [⟨.observe 9 [43200, 0] 200, .ok [1, 0]⟩] (.ok p) ∧
    (Job.price Sample.settings ⟨200⟩).run.Ends [⟨.observe 9 [43200, 0] 200, .ok [0, 43200]⟩] (.ok q) := by
  obtain ⟨p, q, hle, hprices⟩ := price_antitone.2 1 0 0 43200 (by decide)
  have hprice := hprices Sample.settings 9 rfl ⟨200⟩
  have hbelow : Price.averageTick [1, 0] Price.window = .ok (-1) := by decide +kernel
  have habove : Price.averageTick [0, 43200] Price.window = .ok 1 := by decide +kernel
  have hp : .ok (Price.ofTick (-1)) = Except.ok p := (hprice _).1.mp ((ends_price_iff rfl hbelow).mpr rfl)
  have hq : .ok (Price.ofTick 1) = Except.ok q := (hprice _).2.mp ((ends_price_iff rfl habove).mpr rfl)
  refine ⟨p, q, hle, ?_, ?_, (hprice _).1.mpr rfl, (hprice _).2.mpr rfl⟩
  · rw [← Except.ok.inj hp]
    decide +kernel
  · rw [← Except.ok.inj hq]
    decide +kernel

end Duty.SubmitPrices

end OracleDuty
