import Mathlib.Algebra.Order.Floor.Div
import OracleDuty.Proofs.Checked
import OracleDuty.Proofs.Snapshot
/-!
The plan of a snapshot is exact up to the last 64-bit number: it fails only where there is no epoch that it
could name, and none of its operations overflows.

Main statement: `plan_exact`.
-/
namespace OracleDuty.Snapshot

open Checked

/-- The epoch of the first slot that does not start before `endTime`, in unbounded numbers. -/
def epochOf (endTime : UInt64) (t : Chain.Timing) : Nat :=
  (endTime.toNat - t.genesisTime.toNat) ⌈/⌉ t.secondsPerSlot.toNat / t.slotsPerEpoch.toNat

/-! ### Without overflow -/

def divCeil? (a b : UInt64) : Option UInt64 := do
  let quotient ← div? a b
  let remainder ← mod? a b
  if remainder = 0 then return quotient else add? quotient 1

/-- The plan with each operation checked. Only the end of the epoch may be out of reach, and then there is no
plan. -/
def plan? (endTime : UInt64) (t : Chain.Timing) : Option (Except Error Plan) :=
  if t.secondsPerSlot = 0 then some (.error .zeroSecondsPerSlot)
  else if t.slotsPerEpoch = 0 then some (.error .zeroSlotsPerEpoch)
  else if endTime < t.genesisTime then some (.error (.endBeforeGenesis endTime t.genesisTime))
  else do
    let elapsed ← sub? endTime t.genesisTime
    let slot ← divCeil? elapsed t.secondsPerSlot
    let epoch ← div? slot t.slotsPerEpoch
    match (add? epoch 1).bind (mul? · t.slotsPerEpoch) with
    | none => return .error (.epochOverflows epoch)
    | some next =>
      let last ← sub? next 1
      let required ← add? epoch 1
      return .ok ⟨last, epoch, required⟩

theorem divCeil?_eq {a b : UInt64} (hb : b ≠ 0) : divCeil? a b = some (divCeil a b) := by
  rw [divCeil?, div?_eq hb, mod?_eq hb, divCeil]
  simp only [Option.bind_eq_bind, Option.bind_some]
  split
  · rfl
  · next h => exact add?_eq (succ_div_lt_size (toNat_pos hb) h)

/-- The first slot after an epoch, with each operation checked. -/
theorem next_eq_ite {epoch slots : UInt64} (h : 0 < slots.toNat) :
    (add? epoch 1).bind (mul? · slots) = if (epoch.toNat + 1) * slots.toNat < UInt64.size then
      some (UInt64.ofNat ((epoch.toNat + 1) * slots.toNat)) else none := by
  have hle : epoch.toNat + 1 ≤ (epoch.toNat + 1) * slots.toNat := Nat.le_mul_of_pos_right _ h
  by_cases hfit : epoch.toNat + 1 < UInt64.size
  · have hsucc : (epoch + 1).toNat = epoch.toNat + 1 := by
      rw [UInt64.toNat_add]
      exact Nat.mod_eq_of_lt hfit
    rw [add?_eq hfit, Option.bind_some, mul?_eq_ite, hsucc]
  · have hnot : ¬(epoch.toNat + 1) * slots.toNat < UInt64.size := fun hlt => hfit (by omega)
    have hnone : add? epoch 1 = none := if_neg hfit
    rw [if_neg hnot, hnone, Option.bind_none]

/-- No operation of a plan overflows, or divides by zero. -/
theorem plan?_eq (endTime : UInt64) (t : Chain.Timing) : plan? endTime t = some (plan endTime t) := by
  unfold plan? plan
  split
  · rfl
  next hseconds =>
  split
  · rfl
  next hslots =>
  split
  · rfl
  next hgenesis =>
  have hle := UInt64.le_iff_toNat_le.mp (UInt64.not_lt.mp hgenesis)
  simp only [sub?_eq hle, divCeil?_eq hseconds, div?_eq hslots, next_eq_ite (toNat_pos hslots),
    Option.bind_eq_bind, Option.bind_some]
  generalize divCeil (endTime - t.genesisTime) t.secondsPerSlot / t.slotsPerEpoch = epoch
  -- where the end of the epoch is in reach, so are the two numbers beside it
  have hone : epoch.toNat + 1 ≤ (epoch.toNat + 1) * t.slotsPerEpoch.toNat :=
    Nat.le_mul_of_pos_right _ (toNat_pos hslots)
  by_cases hfit : (epoch.toNat + 1) * t.slotsPerEpoch.toNat < UInt64.size
  · have hlast : (1 : UInt64).toNat ≤
        (UInt64.ofNat ((epoch.toNat + 1) * t.slotsPerEpoch.toNat)).toNat := by
      rw [UInt64.toNat_ofNat_of_lt' hfit]
      exact Nat.le_trans (Nat.le_add_left _ _) hone
    have hrequired : epoch.toNat + (1 : UInt64).toNat < UInt64.size := Nat.lt_of_le_of_lt hone hfit
    simp only [if_pos hfit, sub?_eq hlast, add?_eq hrequired, Option.bind_some, Option.pure_def]
  · simp only [if_neg hfit, Option.pure_def]

/-! ### In unbounded numbers -/

theorem toNat_divCeil {a b : UInt64} (hb : 0 < b.toNat) : (divCeil a b).toNat = a.toNat ⌈/⌉ b.toNat :=
  eq_of_forall_ge_iff fun n => (divCeil_le_iff hb n).trans (ceilDiv_le_iff_le_mul hb).symm

/-- Tells that there is an epoch to take a snapshot at, and that its slots are within 64 bits. -/
structure Plannable (endTime : UInt64) (t : Chain.Timing) : Prop where
  seconds : t.secondsPerSlot ≠ 0
  slots : t.slotsPerEpoch ≠ 0
  begun : t.genesisTime ≤ endTime
  fits : (epochOf endTime t + 1) * t.slotsPerEpoch.toNat < UInt64.size

variable {endTime later : UInt64} {t : Chain.Timing} {p : Plan}

theorem toNat_epoch (hseconds : t.secondsPerSlot ≠ 0) (hbegun : t.genesisTime ≤ endTime) :
    (divCeil (endTime - t.genesisTime) t.secondsPerSlot / t.slotsPerEpoch).toNat = epochOf endTime t := by
  rw [UInt64.toNat_div, toNat_divCeil (toNat_pos hseconds), UInt64.toNat_sub_of_le _ _ hbegun, epochOf]

/-- By the checked plan: no operation on the way leaves 64 bits. -/
theorem plan_of_plannable (h : Plannable endTime t) :
    ∃ p, plan endTime t = .ok p ∧ p.targetEpoch.toNat = epochOf endTime t := by
  have hepoch := toNat_epoch h.seconds h.begun
  have hfits := h.fits
  rw [← hepoch] at hfits
  unfold plan
  rw [if_neg h.seconds, if_neg h.slots, if_neg (UInt64.not_lt.mpr h.begun)]
  dsimp only
  rw [if_pos hfits]
  exact ⟨_, rfl, hepoch⟩

/-- An answer of the plan shows that all its numbers are there. -/
theorem plannable_of_plan (h : plan endTime t = .ok p) : Plannable endTime t := by
  unfold plan at h
  split at h
  · cases h
  next hseconds =>
  split at h
  · cases h
  next hslots =>
  split at h
  · cases h
  next hgenesis =>
  have hbegun := UInt64.not_lt.mp hgenesis
  dsimp only at h
  split at h
  · next hfits =>
    rw [toNat_epoch hseconds hbegun] at hfits
    exact ⟨hseconds, hslots, hbegun, hfits⟩
  · cases h

/-- There is no plan just where none can be. -/
theorem plan_eq_error_iff : (∃ e, plan endTime t = .error e) ↔ ¬Plannable endTime t := by
  constructor
  · rintro ⟨e, he⟩ h
    obtain ⟨p, hp, _⟩ := plan_of_plannable h
    rw [hp] at he
    cases he
  · intro h
    cases hp : plan endTime t with
    | error e => exact ⟨e, rfl⟩
    | ok p => exact absurd (plannable_of_plan hp) h

/-- The four ways in which there can be none. -/
theorem not_plannable_iff : ¬Plannable endTime t ↔ t.secondsPerSlot = 0 ∨ t.slotsPerEpoch = 0 ∨
    endTime < t.genesisTime ∨ UInt64.size ≤ (epochOf endTime t + 1) * t.slotsPerEpoch.toNat := by
  rw [← UInt64.not_le, ← Nat.not_lt]
  constructor
  · intro h
    by_contra hnone
    simp only [not_or, not_not] at hnone
    exact h ⟨hnone.1, hnone.2.1, hnone.2.2.1, hnone.2.2.2⟩
  · rintro (h | h | h | h) hp
    · exact hp.seconds h
    · exact hp.slots h
    · exact h hp.begun
    · exact h hp.fits

theorem targetEpoch_of_plan (h : plan endTime t = .ok p) : p.targetEpoch.toNat = epochOf endTime t := by
  obtain ⟨p', hp', hepoch⟩ := plan_of_plannable (plannable_of_plan h)
  rw [h] at hp'
  cases hp'
  exact hepoch

theorem targetSlot_of_plan (h : plan endTime t = .ok p) :
    p.targetSlot.toNat + 1 = (epochOf endTime t + 1) * t.slotsPerEpoch.toNat := by
  have hpos := Nat.mul_pos (Nat.succ_pos (epochOf endTime t)) (toNat_pos (plannable_of_plan h).slots)
  rw [(plan_ok h).1, targetEpoch_of_plan h]
  exact Nat.sub_add_cancel hpos

theorem epochOf_mono (h : endTime ≤ later) (hseconds : t.secondsPerSlot ≠ 0) :
    epochOf endTime t ≤ epochOf later t := by
  have hle := UInt64.le_iff_toNat_le.mp h
  apply Nat.div_le_div_right
  exact (gc_mul_ceilDiv (toNat_pos hseconds)).monotone_l (Nat.sub_le_sub_right hle _)

/-- What ends earlier has its snapshot no later. -/
theorem plan_mono (h : endTime ≤ later) (hbegun : t.genesisTime ≤ endTime) {p' : Plan}
    (hlater : plan later t = .ok p') : ∃ p, plan endTime t = .ok p ∧ p.targetSlot ≤ p'.targetSlot := by
  have hp' := plannable_of_plan hlater
  have hmul : (epochOf endTime t + 1) * t.slotsPerEpoch.toNat ≤
      (epochOf later t + 1) * t.slotsPerEpoch.toNat :=
    Nat.mul_le_mul_right _ (Nat.succ_le_succ (epochOf_mono h hp'.seconds))
  obtain ⟨p, hp, _⟩ := plan_of_plannable
    ⟨hp'.seconds, hp'.slots, hbegun, Nat.lt_of_le_of_lt hmul hp'.fits⟩
  refine ⟨p, hp, UInt64.le_iff_toNat_le.mpr ?_⟩
  have hslot := targetSlot_of_plan hp
  have hslot' := targetSlot_of_plan hlater
  omega

/-- The plan of a snapshot, which never overflows: it fails exactly where a length is zero, where the end lies
before genesis, and where the end of the epoch is past the last 64-bit number. Otherwise it is the last slot of
the first epoch whose last slot does not start before the end, in unbounded numbers; and what ends earlier, but
not before genesis, has a plan as well, with a slot that is no later. -/
theorem plan_exact (endTime : UInt64) (t : Chain.Timing) :
    plan? endTime t = some (plan endTime t) ∧
    ((∃ e, plan endTime t = .error e) ↔ t.secondsPerSlot = 0 ∨ t.slotsPerEpoch = 0 ∨
      endTime < t.genesisTime ∨ UInt64.size ≤ (epochOf endTime t + 1) * t.slotsPerEpoch.toNat) ∧
    (∀ p, plan endTime t = .ok p →
      t.slotsPerEpoch.toNat ∣ p.targetSlot.toNat + 1 ∧
      p.targetSlot.toNat / t.slotsPerEpoch.toNat = epochOf endTime t ∧
      p.targetEpoch.toNat = epochOf endTime t ∧
      endTime.toNat ≤ t.genesisTime.toNat + t.secondsPerSlot.toNat * p.targetSlot.toNat ∧
      (∀ epoch < epochOf endTime t, t.genesisTime.toNat +
        t.secondsPerSlot.toNat * ((epoch + 1) * t.slotsPerEpoch.toNat - 1) < endTime.toNat) ∧
      p.requiredFinalizedEpoch.toNat = epochOf endTime t + 1) ∧
    ∀ later p', endTime ≤ later → t.genesisTime ≤ endTime → plan later t = .ok p' →
      ∃ p, plan endTime t = .ok p ∧ p.targetSlot ≤ p'.targetSlot := by
  refine ⟨plan?_eq endTime t, plan_eq_error_iff.trans not_plannable_iff, ?_, ?_⟩
  · intro p hp
    have hepoch := targetEpoch_of_plan hp
    have hslot := targetSlot_of_plan hp
    have hslots := toNat_pos (plannable_of_plan hp).slots
    obtain ⟨htarget, hrequired, hfirst⟩ := plan_ok hp
    rw [hepoch] at htarget hrequired hfirst
    refine ⟨⟨_, hslot.trans (Nat.mul_comm _ _)⟩, ?_, hepoch, ?_, ?_, hrequired⟩
    · apply Nat.div_eq_of_lt_le
      · rw [Nat.add_mul, Nat.one_mul] at hslot
        omega
      · omega
    · rw [htarget]
      exact (hfirst _).mpr (Nat.le_refl _)
    · intro epoch hlt
      exact Nat.lt_of_not_le fun hle => absurd ((hfirst epoch).mp hle) (Nat.not_le_of_lt hlt)
  · intro later p' h hbegun hlater
    exact plan_mono h hbegun hlater

/-- A chain with one second a slot and 2⁶³ slots an epoch: its first epoch ends within 64 bits, its second one at
the very next number. -/
theorem plan_exact_sample :
    let t : Chain.Timing := ⟨0, 1, 0x8000000000000000⟩
    plan 0x7fffffffffffffff t = .ok ⟨0x7fffffffffffffff, 0, 1⟩ ∧
      (∃ e, plan 0x8000000000000000 t = .error e) ∧
      (∃ p, plan 5 t = .ok p ∧ p.targetSlot ≤ 0x7fffffffffffffff) := by
  intro t
  have hp : plan 0x7fffffffffffffff t = .ok ⟨0x7fffffffffffffff, 0, 1⟩ := by decide +kernel
  refine ⟨hp, (plan_exact _ t).2.1.mpr ?_, (plan_exact 5 t).2.2.2 _ _ (by decide) (by decide) hp⟩
  decide

end OracleDuty.Snapshot
