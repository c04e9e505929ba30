import Mathlib.Algebra.Order.Floor.Div
import Mathlib.Data.Nat.Basic
import OracleDuty.Duty.SubmitPrices
import OracleDuty.Proofs.SnapshotPlan
/-!
Three conversions between times, slots and epochs: the start of a slot, the epoch that a time lies in, and the
epoch that a snapshot at a time is taken in. The second rounds down and the third up, before both divide by the
length of an epoch: only inside the last slot of an epoch do they name different ones.

Main statement: `epochs_agree`.
-/
namespace OracleDuty

namespace Chain.Timing

def lastSlot (t : Timing) (epoch : Nat) : Nat := (epoch + 1) * t.slotsPerEpoch.toNat - 1

/-- The time at which a slot starts, in unbounded numbers. -/
def startOf (t : Timing) (slot : Nat) : Nat := t.genesisTime.toNat + t.secondsPerSlot.toNat * slot

/-- A time lies within the last slot of an epoch, but not at the start of that slot. -/
structure Closing (t : Timing) (epoch time : Nat) : Prop where
  after : t.startOf (t.lastSlot epoch) < time
  before : time < t.startOf (t.lastSlot epoch + 1)

variable {t : Timing} {slot time : UInt64}

theorem toNat_slotTime (h : t.startOf slot.toNat < UInt64.size) :
    (t.slotTime slot).toNat = t.startOf slot.toNat := by
  have hle : t.startOf slot.toNat ≤ UInt64.size - 1 := Nat.le_sub_one_of_lt h
  rw [slotTime, ← startOf, Nat.min_eq_left hle, UInt64.toNat_ofNat_of_lt' h]

theorem toNat_epochAt (h : t.genesisTime ≤ time) : (t.epochAt time).toNat =
    (time.toNat - t.genesisTime.toNat) / t.secondsPerSlot.toNat / t.slotsPerEpoch.toNat := by
  rw [epochAt, if_neg (UInt64.not_lt.mpr h), UInt64.toNat_div, UInt64.toNat_div, UInt64.toNat_sub_of_le _ _ h]

end Chain.Timing

/-! ### Rounding down and rounding up -/

section Rounding

variable {a seconds slots : Nat}

theorem ceilDiv_of_dvd (hseconds : 0 < seconds) (h : seconds ∣ a) : a ⌈/⌉ seconds = a / seconds := by
  obtain ⟨slot, rfl⟩ := h
  rw [Nat.mul_div_cancel_left _ hseconds, ← smul_eq_mul, smul_ceilDiv hseconds]

/-- Rounding up goes one beyond the quotient unless it divides. -/
theorem ceilDiv_of_not_dvd (hseconds : 0 < seconds) (h : ¬seconds ∣ a) :
    a ⌈/⌉ seconds = a / seconds + 1 := by
  have hlow : seconds * (a / seconds) < a := Nat.mul_div_lt_iff_not_dvd.mpr h
  have hhigh : a < seconds * (a / seconds + 1) := Nat.lt_mul_div_succ a hseconds
  apply Nat.le_antisymm
  · exact (ceilDiv_le_iff_le_mul hseconds).mpr hhigh.le
  · apply Nat.succ_le_of_lt
    apply Nat.lt_of_not_le
    intro hle
    exact Nat.not_le_of_lt hlow ((ceilDiv_le_iff_le_mul hseconds).mp hle)

/-- What is inside the last slot of its epoch is what has begun that slot, and has the next epoch after it. -/
theorem within_last_iff (hseconds : 0 < seconds) (hslots : 0 < slots) :
    (seconds * ((a / seconds / slots + 1) * slots - 1) < a ∧
      a < seconds * ((a / seconds / slots + 1) * slots - 1 + 1)) ↔
    ¬seconds ∣ a ∧ slots ∣ a / seconds + 1 := by
  have hnext : (a / seconds / slots + 1) * slots - 1 + 1 = (a / seconds / slots + 1) * slots :=
    Nat.sub_add_cancel (Nat.mul_pos (Nat.succ_pos _) hslots)
  generalize (a / seconds / slots + 1) * slots - 1 = last at hnext ⊢
  constructor
  · rintro ⟨hafter, hbefore⟩
    -- between the two starts `last` is the slot itself
    have hslot : a / seconds = last := by
      apply Nat.div_eq_of_lt_le
      · rw [Nat.mul_comm]
        exact hafter.le
      · rw [Nat.mul_comm]
        exact hbefore
    constructor
    · intro hdvd
      rw [← hslot, Nat.mul_div_cancel' hdvd] at hafter
      exact Nat.lt_irrefl a hafter
    · rw [hslot, hnext]
      exact Nat.dvd_mul_left _ _
  · rintro ⟨hbegun, hend⟩
    have hslot : a / seconds + 1 = last + 1 := by
      calc a / seconds + 1 = (a / seconds + 1) / slots * slots := (Nat.div_mul_cancel hend).symm
        _ = (a / seconds / slots + 1) * slots := by rw [Nat.succ_div_of_dvd hend]
        _ = last + 1 := hnext.symm
    obtain rfl : a / seconds = last := Nat.succ.inj hslot
    exact ⟨Nat.mul_div_lt_iff_not_dvd.mpr hbegun, Nat.lt_mul_div_succ a hseconds⟩

end Rounding

/-! ### Epochs -/

namespace Snapshot

open Checked
open Duty.SubmitPrices (epochAt)

variable {t : Chain.Timing} {time : UInt64} {p : Plan}

/-- The last slot of an epoch is under way when the slots that have begun fill whole epochs. -/
theorem closing_iff (hseconds : t.secondsPerSlot ≠ 0) (hslots : t.slotsPerEpoch ≠ 0)
    (hbegun : t.genesisTime ≤ time) : t.Closing (t.epochAt time).toNat time.toNat ↔
      ¬t.secondsPerSlot.toNat ∣ time.toNat - t.genesisTime.toNat ∧
      t.slotsPerEpoch.toNat ∣ (time.toNat - t.genesisTime.toNat) / t.secondsPerSlot.toNat + 1 := by
  have hle := UInt64.le_iff_toNat_le.mp hbegun
  rw [← within_last_iff (toNat_pos hseconds) (toNat_pos hslots), ← Chain.Timing.toNat_epochAt hbegun]
  constructor
  · rintro ⟨hafter, hbefore⟩
    simp only [Chain.Timing.startOf, Chain.Timing.lastSlot] at hafter hbefore
    constructor <;> omega
  · rintro ⟨hafter, hbefore⟩
    constructor
    all_goals
      simp only [Chain.Timing.startOf, Chain.Timing.lastSlot]
      omega

/-- A snapshot is taken in the epoch that its time lies in, or in the next one if the time is within the last
slot of its epoch. -/
theorem epochOf_eq (hseconds : t.secondsPerSlot ≠ 0) (hslots : t.slotsPerEpoch ≠ 0)
    (hbegun : t.genesisTime ≤ time) :
    (¬t.Closing (t.epochAt time).toNat time.toNat → epochOf time t = (t.epochAt time).toNat) ∧
    (t.Closing (t.epochAt time).toNat time.toNat → epochOf time t = (t.epochAt time).toNat + 1) := by
  have hpos := toNat_pos hseconds
  rw [closing_iff hseconds hslots hbegun, Chain.Timing.toNat_epochAt hbegun, epochOf]
  by_cases hdvd : t.secondsPerSlot.toNat ∣ time.toNat - t.genesisTime.toNat
  · rw [ceilDiv_of_dvd hpos hdvd]
    exact ⟨fun _ => rfl, fun hclosing => absurd hdvd hclosing.1⟩
  · -- the slot is rounded up to the one after it, which may open an epoch
    rw [ceilDiv_of_not_dvd hpos hdvd]
    constructor
    · intro hnot
      have hinner : ¬t.slotsPerEpoch.toNat ∣
          (time.toNat - t.genesisTime.toNat) / t.secondsPerSlot.toNat + 1 := fun h => hnot ⟨hdvd, h⟩
      exact Nat.succ_div_of_not_dvd hinner
    · rintro ⟨-, hend⟩
      exact Nat.succ_div_of_dvd hend

/-- At the start of a slot both epochs are that of the slot. -/
theorem epochs_at_slot (hseconds : t.secondsPerSlot ≠ 0) {slot : UInt64}
    (hstart : t.startOf slot.toNat < UInt64.size) :
    t.epochAt (t.slotTime slot) = slot / t.slotsPerEpoch ∧
    epochOf (t.slotTime slot) t = (slot / t.slotsPerEpoch).toNat := by
  have htime := Chain.Timing.toNat_slotTime hstart
  have hbegun : t.genesisTime ≤ t.slotTime slot := by
    rw [UInt64.le_iff_toNat_le, htime]
    exact Nat.le_add_right _ _
  have helapsed : (t.slotTime slot).toNat - t.genesisTime.toNat = t.secondsPerSlot.toNat * slot.toNat := by
    rw [htime]
    exact Nat.add_sub_cancel_left _ _
  have hslot : t.secondsPerSlot.toNat * slot.toNat / t.secondsPerSlot.toNat = slot.toNat :=
    Nat.mul_div_cancel_left _ (toNat_pos hseconds)
  constructor
  · apply UInt64.toNat_inj.mp
    rw [Chain.Timing.toNat_epochAt hbegun, helapsed, hslot, UInt64.toNat_div]
  · rw [epochOf, helapsed, ceilDiv_of_dvd (toNat_pos hseconds) (Nat.dvd_mul_right _ _), hslot,
      UInt64.toNat_div]

theorem epochAt_eq (hseconds : t.secondsPerSlot ≠ 0) (hslots : t.slotsPerEpoch ≠ 0) (time : UInt64) :
    epochAt time t = pure (t.epochAt time) := by
  have hformed : t.wellFormed = true := by simp [Chain.Timing.wellFormed, hseconds, hslots]
  exact if_pos hformed

/-- The conversions between times and epochs agree at the start of every slot, where they name the epoch of the
slot. At any other time a snapshot is taken in the epoch that a report at this time lies in; only within the last
slot of an epoch it is taken in the epoch after it. -/
theorem epochs_agree (t : Chain.Timing) (hseconds : t.secondsPerSlot ≠ 0) (hslots : t.slotsPerEpoch ≠ 0) :
    (∀ slot : UInt64, t.startOf slot.toNat < UInt64.size →
      epochAt (t.slotTime slot) t = pure (slot / t.slotsPerEpoch) ∧
      ∀ p, plan (t.slotTime slot) t = .ok p → p.targetEpoch = slot / t.slotsPerEpoch) ∧
    ∀ time p, t.genesisTime ≤ time → plan time t = .ok p → ∃ epoch : UInt64,
      epochAt time t = pure epoch ∧
      (¬t.Closing epoch.toNat time.toNat → p.targetEpoch = epoch) ∧
      (t.Closing epoch.toNat time.toNat → p.targetEpoch.toNat = epoch.toNat + 1) := by
  constructor
  · intro slot hstart
    obtain ⟨hreport, hsnapshot⟩ := epochs_at_slot hseconds hstart
    refine ⟨(epochAt_eq hseconds hslots _).trans (congrArg pure hreport), ?_⟩
    intro p hp
    exact UInt64.toNat_inj.mp ((targetEpoch_of_plan hp).trans hsnapshot)
  · intro time p hbegun hp
    obtain ⟨hsame, hnext⟩ := epochOf_eq hseconds hslots hbegun
    refine ⟨t.epochAt time, epochAt_eq hseconds hslots time, ?_, ?_⟩
    · intro hnot
      exact UInt64.toNat_inj.mp ((targetEpoch_of_plan hp).trans (hsame hnot))
    · intro hclosing
      exact (targetEpoch_of_plan hp).trans (hnext hclosing)

/-- Slot 127 is the last one of epoch 3. A snapshot at its start is taken in this epoch, one a second later in the
next epoch, while a report at either time lies in epoch 3. -/
theorem epochs_agree_last_slot :
    let t : Chain.Timing := ⟨1000, 12, 32⟩
    epochAt (t.slotTime 127) t = pure 3 ∧
    (∃ p, plan (t.slotTime 127) t = .ok p ∧ p.targetEpoch = 3) ∧
    epochAt 2525 t = pure 3 ∧
    ∃ p, plan 2525 t = .ok p ∧ p.targetEpoch.toNat = 4 := by
  intro t
  obtain ⟨hslots, htimes⟩ := epochs_agree t (by decide) (by decide)
  have hepoch : (127 : UInt64) / t.slotsPerEpoch = 3 := by decide
  obtain ⟨hreport, hsnapshot⟩ := hslots 127 (by decide)
  rw [hepoch] at hreport hsnapshot
  have hstart : plan (t.slotTime 127) t = .ok ⟨127, 3, 4⟩ := by decide +kernel
  have hlater : plan 2525 t = .ok ⟨159, 4, 5⟩ := by decide +kernel
  refine ⟨hreport, ⟨_, hstart, hsnapshot _ hstart⟩, ?_⟩
  obtain ⟨epoch, hlast, -, hnext⟩ := htimes 2525 _ (by decide) hlater
  have h3 : t.epochAt 2525 = 3 := by decide +kernel
  rw [epochAt_eq (by decide) (by decide), h3] at hlast
  obtain rfl : (3 : UInt64) = epoch := Except.ok.inj (Program.done.inj hlast)
  refine ⟨?_, _, hlater, hnext ⟨by decide, by decide⟩⟩
  rw [epochAt_eq (by decide) (by decide), h3]

end Snapshot

end OracleDuty
