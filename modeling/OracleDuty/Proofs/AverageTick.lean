import Mathlib.Data.Int.Order.Basic
import Mathlib.Data.List.Basic
import OracleDuty.Price
/-!
The average tick against the quotient rounded down, in unbounded numbers. The difference of two cumulatives needs
65 bits and its quotient is kept in 64: a window of one second is the only one that leaves room for a wrong tick.

Main statement: `averageTick_exact`.
-/
namespace OracleDuty.Price

/-- The average between two cumulatives, rounded down in unbounded numbers. -/
structure IsAverage (oldest newest : Int64) (window : UInt32) (tick : Int) : Prop where
  le : tick * window.toNat ≤ newest.toInt - oldest.toInt
  lt : newest.toInt - oldest.toInt < (tick + 1) * window.toNat

/-- A number that a 64-bit tick can hold. -/
def Fits (n : Int) : Prop := Int64.minValue.toInt ≤ n ∧ n ≤ Int64.maxValue.toInt

variable {oldest newest : Int64} {window : UInt32}

theorem window_pos (h : window ≠ 0) : (0 : Int) < window.toNat := by
  apply Int.natCast_pos.mpr
  apply Nat.pos_of_ne_zero
  intro h0
  exact h (UInt32.toNat_inj.mp h0)

/-- There is exactly one average over a window. -/
theorem isAverage_iff (h : window ≠ 0) {tick : Int} : IsAverage oldest newest window tick ↔
    tick = (newest.toInt - oldest.toInt) / window.toNat := by
  have hpos := window_pos h
  constructor
  · intro haverage
    have hle := (Int.le_ediv_iff_mul_le hpos).mpr haverage.le
    have hlt := (Int.ediv_lt_iff_lt_mul hpos).mpr haverage.lt
    omega
  · rintro rfl
    exact ⟨Int.ediv_mul_le _ (Int.ne_of_gt hpos), Int.lt_ediv_add_one_mul_self _ hpos⟩

/-! ### The low bits of the quotient -/

theorem fits_toInt (n : Int64) : Fits n.toInt := ⟨n.minValue_le_toInt, n.toInt_le⟩

/-- A number is kept in 64 bits exactly if it fits. -/
theorem toInt_ofInt_eq_iff {n : Int} : (Int64.ofInt n).toInt = n ↔ Fits n := by
  constructor
  · intro h
    rw [← h]
    exact fits_toInt _
  · rintro ⟨hlow, hhigh⟩
    apply Int64.toInt_ofInt_of_le
    · exact hlow
    · exact Int.lt_add_one_of_le hhigh

/-- A window of two seconds or more halves the difference, which then has room. -/
theorem average_fits (h : 1 < window.toNat) : Fits ((newest.toInt - oldest.toInt) / window.toNat) := by
  have hpos : (0 : Int) < window.toNat := by omega
  have hnewest := fits_toInt newest
  have holdest := fits_toInt oldest
  simp only [Fits, Int64.toInt_minValue, Int64.toInt_maxValue] at *
  constructor
  · apply (Int.le_ediv_iff_mul_le hpos).mpr
    omega
  · apply Int.le_of_lt_add_one
    apply (Int.ediv_lt_iff_lt_mul hpos).mpr
    omega

/-- The quotient fits over every window but that of one second, and over that one if the difference does. -/
theorem average_fits_iff (h : window ≠ 0) : Fits ((newest.toInt - oldest.toInt) / window.toNat) ↔
    window ≠ 1 ∨ Fits (newest.toInt - oldest.toInt) := by
  by_cases hone : window = 1
  · have hdiv : (newest.toInt - oldest.toInt) / ((1 : UInt32).toNat : Int) = newest.toInt - oldest.toInt :=
      Int.ediv_one _
    rw [hone, hdiv]
    simp
  · have hmany : 1 < window.toNat := by
      have hpos := window_pos h
      have hne : window.toNat ≠ 1 := fun h1 => hone (UInt32.toNat_inj.mp h1)
      omega
    exact iff_of_true (average_fits hmany) (Or.inl hone)

/-! ### Averages -/

theorem one_lt_window : 1 < Price.window.toNat := by decide

theorem averageTick_of_length_ne {cumulatives : List Int64} (h : cumulatives.length ≠ 2) :
    averageTick cumulatives window = .error (.missingObservations cumulatives.length) := by
  unfold averageTick
  split
  · exact absurd rfl h
  · rfl

theorem averageTick_pair (h : window ≠ 0) : averageTick [oldest, newest] window =
    .ok (Int64.ofInt ((newest.toInt - oldest.toInt) / window.toNat)) := if_neg h

/-- Over two seconds or more the average is the quotient itself. -/
theorem exists_averageTick (h : 1 < window.toNat) (oldest newest : Int64) :
    ∃ tick, averageTick [oldest, newest] window = .ok tick ∧
      tick.toInt = (newest.toInt - oldest.toInt) / window.toNat := by
  have hne : window ≠ 0 := by
    rintro rfl
    exact absurd h (by decide)
  exact ⟨_, averageTick_pair hne, toInt_ofInt_eq_iff.mpr (average_fits h)⟩

/-- An average takes two cumulatives and a window, and then it is the low 64 bits of the quotient rounded down.
They are the quotient itself over a window of two seconds or more; over one second they are it as long as the
difference of the cumulatives fits in 64 bits. -/
theorem averageTick_exact (cumulatives : List Int64) (window : UInt32) :
    (cumulatives.length ≠ 2 →
      averageTick cumulatives window = .error (.missingObservations cumulatives.length)) ∧
    (cumulatives.length = 2 → window = 0 → averageTick cumulatives window = .error .emptyWindow) ∧
    ∀ oldest newest, cumulatives = [oldest, newest] → window ≠ 0 →
      ∃ tick, averageTick cumulatives window = .ok tick ∧
        tick.toInt = ((newest.toInt - oldest.toInt) / window.toNat).bmod Int64.size ∧
        (IsAverage oldest newest window tick.toInt ↔ window ≠ 1 ∨ Fits (newest.toInt - oldest.toInt)) := by
  refine ⟨averageTick_of_length_ne, ?_, ?_⟩
  · intro htwo hempty
    obtain ⟨oldest, newest, rfl⟩ := List.length_eq_two.mp htwo
    exact if_pos hempty
  · rintro oldest newest rfl h
    refine ⟨_, averageTick_pair h, Int64.toInt_ofInt, ?_⟩
    calc IsAverage oldest newest window _
        ↔ (Int64.ofInt ((newest.toInt - oldest.toInt) / window.toNat)).toInt =
          (newest.toInt - oldest.toInt) / window.toNat := isAverage_iff h
      _ ↔ Fits ((newest.toInt - oldest.toInt) / window.toNat) := toInt_ofInt_eq_iff
      _ ↔ window ≠ 1 ∨ Fits (newest.toInt - oldest.toInt) := average_fits_iff h

/-- Between the two extremes there is room for the average over two seconds. -/
theorem averageTick_exact_extremes :
    averageTick [Int64.minValue, Int64.maxValue, 0] 2 = .error (.missingObservations 3) ∧
    averageTick [Int64.minValue, Int64.maxValue] 0 = .error .emptyWindow ∧
    averageTick [Int64.minValue, Int64.maxValue] 2 = .ok Int64.maxValue ∧
    IsAverage Int64.minValue Int64.maxValue 2 Int64.maxValue.toInt := by
  obtain ⟨tick, htick, hbits, haverage⟩ := (averageTick_exact [Int64.minValue, Int64.maxValue] 2).2.2
    Int64.minValue Int64.maxValue rfl (by decide)
  obtain rfl : tick = Int64.maxValue := Int64.toInt_inj.mp (hbits.trans (by decide))
  refine ⟨?_, ?_, htick, haverage.mpr (Or.inl (by decide))⟩
  · exact (averageTick_exact _ 2).1 (by decide)
  · exact (averageTick_exact _ 0).2.1 rfl rfl

/-- Over one second the average between `-1` and the largest cumulative is one more than any tick, and the
smallest tick is taken for it. -/
theorem averageTick_wraps :
    averageTick [-1, Int64.maxValue] 1 = .ok Int64.minValue ∧
    IsAverage (-1) Int64.maxValue 1 9223372036854775808 ∧
    ¬∃ tick : Int64, averageTick [-1, Int64.maxValue] 1 = .ok tick ∧
      IsAverage (-1) Int64.maxValue 1 tick.toInt := by
  have htick : averageTick [-1, Int64.maxValue] 1 = .ok Int64.minValue := by decide +kernel
  refine ⟨htick, ⟨by decide, by decide⟩, ?_⟩
  rintro ⟨tick, hok, haverage⟩
  obtain rfl := Except.ok.inj (htick.symm.trans hok)
  exact absurd haverage.lt (by decide)

end OracleDuty.Price
