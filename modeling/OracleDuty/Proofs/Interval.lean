import OracleDuty.Interval
import OracleDuty.Proofs.Checked
/-!
The number of intervals that have elapsed and the boundary that ended the last of them. The two are computed apart,
one with a difference that stops at zero and the other one behind guards: they agree in unbounded numbers, and
neither overflows, up to the last 64-bit number.

Main statement: `boundaries_agree`.
-/
namespace OracleDuty.Interval

open Checked

variable {now later start earlier duration k e : UInt64} {err : Error}

/-! ### Without overflow -/

/-- The elapsed intervals with each operation checked. No difference is taken where it stops at zero. -/
def elapsed? (now start duration : UInt64) : Option (Except Error UInt64) :=
  if duration = 0 then some (.error .zeroDuration)
  else do
    let passed ← if now < start then some 0 else sub? now start
    let count ← div? passed duration
    return .ok count

/-- The last boundary with each operation checked. -/
def lastBoundary? (latest reference interval : UInt64) : Option (Except Error UInt64) :=
  if latest = 0 ∨ reference = 0 ∨ interval = 0 then some (.error (.zeroInput latest reference interval))
  else if latest < reference then some (.error (.referenceInFuture latest reference))
  else do
    let passed ← sub? latest reference
    let count ← div? passed interval
    let length ← mul? count interval
    let boundary ← add? reference length
    return .ok boundary

/-- Whole intervals end no later than the time that they are counted at. -/
theorem add_whole_le (h : start ≤ now) (duration : UInt64) :
    start.toNat + (now.toNat - start.toNat) / duration.toNat * duration.toNat ≤ now.toNat := by
  have hfit := Nat.div_mul_le_self (now.toNat - start.toNat) duration.toNat
  have hle := UInt64.le_iff_toNat_le.mp h
  omega

theorem toNat_count (h : start ≤ now) (duration : UInt64) :
    ((now - start) / duration).toNat = (now.toNat - start.toNat) / duration.toNat := by
  rw [UInt64.toNat_div, UInt64.toNat_sub_of_le _ _ h]

/-- The length of the whole intervals is a 64-bit number, and so is their end. -/
theorem whole_fits (h : start ≤ now) (duration : UInt64) :
    ((now - start) / duration).toNat * duration.toNat < UInt64.size ∧
    start.toNat + ((now - start) / duration * duration).toNat < UInt64.size := by
  -- neither is bounded by its operands, but both by the end of the intervals, which `now` bounds
  have hbound := now.toNat_lt_size
  have hend := add_whole_le h duration
  rw [← toNat_count h] at hend
  have hlength : ((now - start) / duration).toNat * duration.toNat < UInt64.size := by omega
  refine ⟨hlength, ?_⟩
  rw [UInt64.toNat_mul, Nat.mod_eq_of_lt hlength]
  exact Nat.lt_of_le_of_lt hend hbound

/-- No operation of the count overflows, and none is undefined. -/
theorem elapsed?_eq (now start duration : UInt64) :
    elapsed? now start duration = some (elapsed now start duration) := by
  unfold elapsed? elapsed
  split
  · rfl
  next hduration =>
  split
  · simp only [div?_eq hduration, Option.bind_eq_bind, Option.bind_some, Option.pure_def]
  · next hnot =>
    have hle := UInt64.le_iff_toNat_le.mp (UInt64.not_lt.mp hnot)
    simp only [sub?_eq hle, div?_eq hduration, Option.bind_eq_bind, Option.bind_some, Option.pure_def]

/-- No operation of the last boundary overflows, and none is undefined. -/
theorem lastBoundary?_eq (now start duration : UInt64) :
    lastBoundary? now start duration = some (lastBoundary now start duration) := by
  unfold lastBoundary? lastBoundary
  split
  · rfl
  next hzero =>
  split
  · rfl
  next hnot =>
  have hduration : duration ≠ 0 := fun h => hzero (.inr (.inr h))
  have hstart := UInt64.not_lt.mp hnot
  obtain ⟨hlength, hend⟩ := whole_fits hstart duration
  simp only [sub?_eq (UInt64.le_iff_toNat_le.mp hstart), div?_eq hduration, mul?_eq hlength, add?_eq hend,
    Option.bind_eq_bind, Option.bind_some, Option.pure_def]

/-! ### In unbounded numbers -/

/-- A difference that stops at zero. -/
theorem toNat_passed (now start : UInt64) :
    (if now < start then 0 else now - start).toNat = now.toNat - start.toNat := by
  split
  · next h =>
    have hlt := UInt64.lt_iff_toNat_lt.mp h
    exact (Nat.sub_eq_zero_of_le (Nat.le_of_lt hlt)).symm
  · next h => exact UInt64.toNat_sub_of_le _ _ (UInt64.not_lt.mp h)

theorem exists_elapsed (h : duration ≠ 0) (now start : UInt64) : ∃ k, elapsed now start duration = .ok k ∧
    k.toNat = (now.toNat - start.toNat) / duration.toNat := by
  refine ⟨_, if_neg h, ?_⟩
  rw [UInt64.toNat_div, toNat_passed]

/-- The count is the quotient rounded down, zero before the first interval. -/
theorem elapsed_eq_ok_iff : elapsed now start duration = .ok k ↔
    duration ≠ 0 ∧ k.toNat = (now.toNat - start.toNat) / duration.toNat := by
  constructor
  · intro h
    have hduration : duration ≠ 0 := by
      intro h0
      rw [elapsed, if_pos h0] at h
      cases h
    obtain ⟨count, hcount, hnat⟩ := exists_elapsed hduration now start
    obtain rfl : count = k := Except.ok.inj (hcount.symm.trans h)
    exact ⟨hduration, hnat⟩
  · rintro ⟨hduration, hnat⟩
    obtain ⟨count, hcount, hnat'⟩ := exists_elapsed hduration now start
    obtain rfl : count = k := UInt64.toNat_inj.mp (hnat'.trans hnat.symm)
    exact hcount

/-- Only intervals without length have no count. -/
theorem elapsed_eq_error_iff : elapsed now start duration = .error err ↔
    duration = 0 ∧ err = .zeroDuration := by
  unfold elapsed
  split
  · next h =>
    constructor
    · intro herr
      exact ⟨h, (Except.error.inj herr).symm⟩
    · rintro ⟨-, rfl⟩
      rfl
  · next h => simp only [h, reduceCtorEq, false_and]

/-- No interval has elapsed exactly as long as the first one has not ended, whether its end is a 64-bit number or
not. -/
theorem elapsed_eq_zero_iff : elapsed now start duration = .ok 0 ↔
    duration ≠ 0 ∧ now.toNat < start.toNat + duration.toNat := by
  rw [elapsed_eq_ok_iff]
  apply and_congr_right
  intro hduration
  have hpos := toNat_pos hduration
  rw [UInt64.toNat_zero, eq_comm, Nat.div_eq_zero_iff_lt hpos]
  omega

/-- None elapses before the start. -/
theorem le_of_elapsed (h : elapsed now start duration = .ok k) (hk : k ≠ 0) : start ≤ now := by
  obtain ⟨-, hcount⟩ := elapsed_eq_ok_iff.mp h
  apply UInt64.not_lt.mp
  intro hlt
  have hlt := UInt64.lt_iff_toNat_lt.mp hlt
  rw [Nat.sub_eq_zero_of_le (Nat.le_of_lt hlt), Nat.zero_div] at hcount
  exact hk (UInt64.toNat_inj.mp hcount)

/-- Later, or from an earlier start, no fewer intervals have elapsed. -/
theorem elapsed_mono (hnow : now ≤ later) (hstart : earlier ≤ start)
    (hk : elapsed now start duration = .ok k) : ∃ k', elapsed later earlier duration = .ok k' ∧ k ≤ k' := by
  obtain ⟨hduration, hcount⟩ := elapsed_eq_ok_iff.mp hk
  obtain ⟨k', hk', hcount'⟩ := exists_elapsed hduration later earlier
  have hpassed : now.toNat - start.toNat ≤ later.toNat - earlier.toNat := by
    rw [UInt64.le_iff_toNat_le] at hnow hstart
    omega
  refine ⟨k', hk', ?_⟩
  rw [UInt64.le_iff_toNat_le, hcount, hcount']
  exact Nat.div_le_div_right hpassed

/-- There is a last boundary of intervals that have a start and a length once they have begun. -/
theorem exists_lastBoundary (hstart : start ≠ 0) (hduration : duration ≠ 0) (hbegun : start ≤ now) :
    ∃ e, lastBoundary now start duration = .ok e ∧
      e.toNat = start.toNat + (now.toNat - start.toNat) / duration.toNat * duration.toNat := by
  have hnow : now ≠ 0 := by
    rintro rfl
    exact hstart (UInt64.le_zero_iff.mp hbegun)
  have hzero : ¬(now = 0 ∨ start = 0 ∨ duration = 0) := by
    simp only [hnow, hstart, hduration, or_self, not_false_eq_true]
  obtain ⟨hlength, hend⟩ := whole_fits hbegun duration
  refine ⟨_, (if_neg hzero).trans (if_neg (UInt64.not_lt.mpr hbegun)), ?_⟩
  rw [UInt64.toNat_add, Nat.mod_eq_of_lt hend, UInt64.toNat_mul, Nat.mod_eq_of_lt hlength, toNat_count hbegun]

/-- The last boundary is as many durations after the start as fit before `now`. -/
theorem lastBoundary_eq_ok_iff : lastBoundary now start duration = .ok e ↔
    start ≠ 0 ∧ duration ≠ 0 ∧ start ≤ now ∧
      e.toNat = start.toNat + (now.toNat - start.toNat) / duration.toNat * duration.toNat := by
  constructor
  · intro h
    have hguards : start ≠ 0 ∧ duration ≠ 0 ∧ start ≤ now := by
      unfold lastBoundary at h
      split at h
      · cases h
      next hzero =>
      split at h
      · cases h
      next hnot =>
      simp only [not_or] at hzero
      exact ⟨hzero.2.1, hzero.2.2, UInt64.not_lt.mp hnot⟩
    obtain ⟨hstart, hduration, hbegun⟩ := hguards
    obtain ⟨e', he', hnat⟩ := exists_lastBoundary hstart hduration hbegun
    obtain rfl : e' = e := Except.ok.inj (he'.symm.trans h)
    exact ⟨hstart, hduration, hbegun, hnat⟩
  · rintro ⟨hstart, hduration, hbegun, hnat⟩
    obtain ⟨e', he', hnat'⟩ := exists_lastBoundary hstart hduration hbegun
    obtain rfl : e' = e := UInt64.toNat_inj.mp (hnat'.trans hnat.symm)
    exact he'

/-! ### The count and the boundary -/

structure EndsLast (now start duration k e : UInt64) : Prop where
  eq_add : e.toNat = start.toNat + k.toNat * duration.toNat
  le : e.toNat ≤ now.toNat
  lt : now.toNat < e.toNat + duration.toNat

/-- The boundary ends as many intervals as are counted. -/
theorem endsLast_of_ok (hk : elapsed now start duration = .ok k) (he : lastBoundary now start duration = .ok e) :
    EndsLast now start duration k e := by
  obtain ⟨hduration, hcount⟩ := elapsed_eq_ok_iff.mp hk
  obtain ⟨-, -, hbegun, hend⟩ := lastBoundary_eq_ok_iff.mp he
  -- the end of the current interval may be past 64 bits, so it is told in unbounded numbers only
  have hnext := Nat.lt_div_mul_add (a := now.toNat - start.toNat) (toNat_pos hduration)
  constructor
  case eq_add => rw [hcount, hend]
  case le =>
    rw [hend]
    exact add_whole_le hbegun duration
  case lt => omega

/-- Neither the count nor the boundary ever overflows or divides by zero. Once an interval has elapsed from a start
that is not zero there is a boundary, which ends as many intervals as are counted and is the last one up to now.
There is no count exactly if the intervals have no length; it is zero exactly as long as the first of them has not
ended, and it does not fall with a later time or an earlier start. -/
theorem boundaries_agree (now start duration : UInt64) :
    (elapsed? now start duration = some (elapsed now start duration) ∧
      lastBoundary? now start duration = some (lastBoundary now start duration)) ∧
    (∀ k, start ≠ 0 → elapsed now start duration = .ok k → k ≠ 0 →
      ∃ e, lastBoundary now start duration = .ok e ∧ EndsLast now start duration k e) ∧
    ((∃ err, elapsed now start duration = .error err) ↔ duration = 0) ∧
    (elapsed now start duration = .ok 0 ↔ duration ≠ 0 ∧ now.toNat < start.toNat + duration.toNat) ∧
    ∀ later earlier k, now ≤ later → earlier ≤ start → elapsed now start duration = .ok k →
      ∃ k', elapsed later earlier duration = .ok k' ∧ k ≤ k' := by
  refine ⟨⟨elapsed?_eq .., lastBoundary?_eq ..⟩, ?_, ?_, elapsed_eq_zero_iff, ?_⟩
  · intro k hstart hk hpassed
    obtain ⟨hduration, -⟩ := elapsed_eq_ok_iff.mp hk
    obtain ⟨e, he, -⟩ := exists_lastBoundary hstart hduration (le_of_elapsed hk hpassed)
    exact ⟨e, he, endsLast_of_ok hk he⟩
  · simp only [elapsed_eq_error_iff, exists_and_left, exists_eq, and_true]
  · intro later earlier k hnow hstart hk
    exact elapsed_mono hnow hstart hk

/-- At the last time there is, from a start of one: the interval after the boundary has no 64-bit end. From a start
whose first interval ends one past the last 64-bit number, none has elapsed. -/
theorem boundaries_agree_last_time :
    let now : UInt64 := 0xffffffffffffffff
    let duration : UInt64 := 0x8000000000000000
    (∃ e, lastBoundary now 1 duration = .ok e ∧ EndsLast now 1 duration 1 e) ∧
    elapsed now 0x8000000000000000 duration = .ok 0 ∧
    ∃ k', elapsed now 0 duration = .ok k' ∧ 1 ≤ k' := by
  intro now duration
  have hcount : elapsed now 1 duration = .ok 1 := elapsed_eq_ok_iff.mpr ⟨by decide, by decide⟩
  obtain ⟨-, hboundary, -, -, hmono⟩ := boundaries_agree now 1 duration
  refine ⟨hboundary 1 (by decide) hcount (by decide), ?_, hmono now 0 1 (by decide) (by decide) hcount⟩
  exact (boundaries_agree now 0x8000000000000000 duration).2.2.2.1.mpr ⟨by decide, by decide⟩

end OracleDuty.Interval
