import OracleDuty.Proofs.Checked
import OracleDuty.Proofs.Duty.Action
import OracleDuty.Snapshot.Resolve
/-!
The arithmetic of rewards snapshots, in unbounded numbers: the epoch of the snapshot, and the block that is
found.

Main statements: `plan_ok` for the epoch and `walk_guides` for the block.
-/
namespace OracleDuty

open Checked

/-! ### The epoch -/

namespace Snapshot

/-- A quotient with a remainder has room for one more. -/
theorem succ_div_lt_size {a b : UInt64} (hb : 0 < b.toNat) (h : a % b ≠ 0) :
    (a / b).toNat + (1 : UInt64).toNat < UInt64.size := by
  have hmod : a.toNat % b.toNat ≠ 0 := by
    rw [← UInt64.toNat_mod]
    exact fun h0 => h (UInt64.toNat_inj.mp h0)
  have hone : b.toNat ≠ 1 := by
    intro hone
    rw [hone, Nat.mod_one] at hmod
    exact hmod rfl
  have hhalf : a.toNat / b.toNat ≤ a.toNat / 2 := Nat.div_le_div_left (by omega) (by decide)
  have hbound := UInt64.toNat_lt_size a
  rw [UInt64.toNat_div, show (1 : UInt64).toNat = 1 from rfl]
  have hsize : UInt64.size = 18446744073709551616 := rfl
  omega

/-- The quotient rounded up is the least factor that reaches the dividend. -/
theorem divCeil_le_iff {a b : UInt64} (hb : 0 < b.toNat) (n : Nat) :
    (divCeil a b).toNat ≤ n ↔ a.toNat ≤ b.toNat * n := by
  have hdiv := Nat.div_add_mod a.toNat b.toNat
  have hmod : (a % b).toNat = a.toNat % b.toNat := UInt64.toNat_mod ..
  have hquot : (a / b).toNat = a.toNat / b.toNat := UInt64.toNat_div ..
  unfold divCeil
  split
  · next h =>
    rw [h] at hmod
    have h0 : a.toNat % b.toNat = 0 := hmod.symm
    rw [hquot, ← Nat.mul_le_mul_left_iff hb]
    rw [h0, Nat.add_zero] at hdiv
    rw [hdiv]
  · next h =>
    have h0 : 0 < a.toNat % b.toNat := by
      rw [← hmod]
      exact toNat_pos h
    have hlt := Nat.mod_lt a.toNat hb
    have hsucc : (a / b + 1).toNat = a.toNat / b.toNat + 1 := by
      have hfit := succ_div_lt_size hb h
      rw [hquot] at hfit
      rw [UInt64.toNat_add, hquot]
      exact Nat.mod_eq_of_lt hfit
    rw [hsucc]
    constructor
    · intro hn
      have hle := Nat.mul_le_mul_left b.toNat hn
      rw [Nat.mul_add, Nat.mul_one] at hle
      omega
    · intro hn
      apply Nat.lt_of_not_le
      intro hle
      have hle' := Nat.mul_le_mul_left b.toNat hle
      omega

/-- The snapshot is taken at the last slot of an epoch, and that epoch is the first whose last slot does not
start before the end of the interval. -/
theorem plan_ok {endTime : UInt64} {t : Chain.Timing} {p : Plan} (h : plan endTime t = .ok p) :
    p.targetSlot.toNat = (p.targetEpoch.toNat + 1) * t.slotsPerEpoch.toNat - 1 ∧
    p.requiredFinalizedEpoch.toNat = p.targetEpoch.toNat + 1 ∧
    ∀ epoch, endTime.toNat ≤ t.genesisTime.toNat +
      t.secondsPerSlot.toNat * ((epoch + 1) * t.slotsPerEpoch.toNat - 1) ↔
        p.targetEpoch.toNat ≤ epoch := by
  -- past the guards of the plan nothing wraps around
  unfold plan at h
  split at h
  · cases h
  next hseconds =>
  split at h
  · cases h
  next hslots =>
  split at h
  · cases h
  next hgenesis =>
  have hle : t.genesisTime ≤ endTime := UInt64.not_lt.mp hgenesis
  have hle' := UInt64.le_iff_toNat_le.mp hle
  have hslots' := toNat_pos hslots
  dsimp only at h
  split at h
  · next hfit =>
    cases h
    dsimp only at hfit ⊢
    have hepoch : (divCeil (endTime - t.genesisTime) t.secondsPerSlot / t.slotsPerEpoch).toNat =
        (divCeil (endTime - t.genesisTime) t.secondsPerSlot).toNat / t.slotsPerEpoch.toNat :=
      UInt64.toNat_div ..
    generalize divCeil (endTime - t.genesisTime) t.secondsPerSlot / t.slotsPerEpoch = epoch at *
    have hone : epoch.toNat + 1 ≤ (epoch.toNat + 1) * t.slotsPerEpoch.toNat :=
      Nat.le_mul_of_pos_right _ hslots'
    have hsize : UInt64.size = 2 ^ 64 := rfl
    refine ⟨?_, ?_, ?_⟩
    · rw [UInt64.toNat_sub_of_le, UInt64.toNat_ofNat_of_lt' hfit]
      · rfl
      · rw [UInt64.le_iff_toNat_le, UInt64.toNat_ofNat_of_lt' hfit]
        exact Nat.le_trans (by simp) hone
    · rw [UInt64.toNat_add]
      exact Nat.mod_eq_of_lt (by simp only [UInt64.reduceToNat]; omega)
    · -- the first slot that starts late enough, rounded up to the epoch that it is in
      intro n
      calc endTime.toNat ≤ t.genesisTime.toNat +
            t.secondsPerSlot.toNat * ((n + 1) * t.slotsPerEpoch.toNat - 1)
          ↔ (endTime - t.genesisTime).toNat ≤
              t.secondsPerSlot.toNat * ((n + 1) * t.slotsPerEpoch.toNat - 1) := by
            rw [UInt64.toNat_sub_of_le _ _ hle]
            omega
        _ ↔ (divCeil (endTime - t.genesisTime) t.secondsPerSlot).toNat ≤
              (n + 1) * t.slotsPerEpoch.toNat - 1 := (divCeil_le_iff (toNat_pos hseconds) _).symm
        _ ↔ (divCeil (endTime - t.genesisTime) t.secondsPerSlot).toNat <
              (n + 1) * t.slotsPerEpoch.toNat := by
            have hone' : 0 < (n + 1) * t.slotsPerEpoch.toNat := Nat.mul_pos (Nat.succ_pos n) hslots'
            omega
        _ ↔ epoch.toNat ≤ n := by
            rw [hepoch, ← Nat.div_lt_iff_lt_mul hslots', Nat.lt_succ_iff]
  · cases h

/-! ### The block -/

open Duty

/-- The block that was found at the highest slot that holds one, at most `depth` slots before the last. -/
structure FoundAt (t : List (Exchange Request Answer)) (last depth slot : Nat) (block : Chain.Block) :
    Prop where
  low : last ≤ slot + depth
  high : slot ≤ last
  found : ⟨.block (UInt64.ofNat slot), .ok (some block)⟩ ∈ t
  empty : ∀ n, slot < n → n ≤ last → ⟨.block (UInt64.ofNat n), .ok none⟩ ∈ t

theorem foundAt_last {t : List (Exchange Request Answer)} {slot : UInt64} {block : Chain.Block}
    (depth : Nat) (h : ⟨.block slot, .ok (some block)⟩ ∈ t) :
    FoundAt t slot.toNat depth slot.toNat block where
  low := Nat.le_add_right _ _
  high := Nat.le_refl _
  found := by rwa [UInt64.ofNat_toNat]
  empty n hn hle := absurd hle (Nat.not_le_of_lt hn)

theorem toNat_sub_one {slot : UInt64} (h : 0 < slot.toNat) : (slot - 1).toNat = slot.toNat - 1 :=
  UInt64.toNat_sub_of_le _ _ (UInt64.le_iff_toNat_le.mpr h)

/-- The walk finds the highest slot that holds a block, if it finds any. -/
theorem walk_guides (first : UInt64) (depth : Nat) (slot : UInt64) (hdepth : depth ≤ slot.toNat)
    (t : List (Exchange Request Answer)) :
    Script.history.Guides t (walk first depth slot) (fun _ => True) fun t' block =>
      t <+: t' ∧ ∃ n, FoundAt t' slot.toNat depth n block := by
  -- by induction on the depth: a slot that holds no block hands on to the one before it
  induction depth generalizing slot t with
  | zero =>
    unfold walk
    rw [guides_bind]
    refine ⟨trivial, ?_⟩
    rintro (e | _ | block)
    · trivial
    · trivial
    · refine ⟨List.prefix_append _ _, slot.toNat, foundAt_last _ ?_⟩
      exact List.mem_append_right _ List.mem_cons_self
  | succ depth ih =>
    have hone := toNat_sub_one (Nat.lt_of_lt_of_le (Nat.succ_pos depth) hdepth)
    unfold walk
    rw [guides_bind]
    refine ⟨trivial, ?_⟩
    rintro (e | _ | block)
    · trivial
    · refine (ih (slot - 1) (by omega) _).mono (fun _ h => h) ?_
      rintro t' block ⟨hgrown, n, h⟩
      refine ⟨(List.prefix_append _ _).trans hgrown, n, ?_⟩
      have hlow := h.low
      have hhigh := h.high
      constructor
      case low => omega
      case high => omega
      case found => exact h.found
      case empty =>
        intro n' hn hle
        by_cases hlast : n' = slot.toNat
        · rw [hlast, UInt64.ofNat_toNat]
          exact hgrown.subset (List.mem_append_right _ List.mem_cons_self)
        · exact h.empty n' hn (by omega)
    · refine ⟨List.prefix_append _ _, slot.toNat, foundAt_last _ ?_⟩
      exact List.mem_append_right _ List.mem_cons_self

/-- A snapshot is ready once the epoch after its own is finalized, and its block is the one that a walk back
from its slot finds. -/
theorem resolve_guides (endTime : UInt64) (timing : Chain.Timing) (finalizedEpoch maxWalkback : UInt64)
    (t : List (Exchange Request Answer)) :
    Script.history.Guides t (resolve endTime timing finalizedEpoch maxWalkback) (fun _ => True)
      fun t' r => t <+: t' ∧ ∀ target, r = .ready target → ∃ p n block, plan endTime timing = .ok p ∧
        p.requiredFinalizedEpoch.toNat ≤ finalizedEpoch.toNat ∧
        FoundAt t' p.targetSlot.toNat (min maxWalkback.toNat p.targetSlot.toNat) n block ∧
        target = ⟨endTime, p, block.slot, block.executionBlock⟩ := by
  unfold resolve
  refine guides_bind.mpr (guides_ofExcept (fun p hp => ?_) trivial)
  split
  · exact ⟨List.prefix_rfl, nofun⟩
  · next hfinal =>
    refine guides_bind.mpr ((walk_guides _ _ _ (Nat.min_le_right _ _) t).mono (fun _ h => h) ?_)
    rintro t' block ⟨hgrown, n, h⟩
    refine ⟨hgrown, ?_⟩
    rintro target ⟨⟩
    exact ⟨p, n, block, hp, UInt64.le_iff_toNat_le.mp (UInt64.not_lt.mp hfinal), h, rfl⟩

/-! ### When a snapshot is settled -/

def walked (block : Chain.Block) : (skipped : Nat) → (slot : UInt64) → List (Exchange Request Answer)
  | 0, slot => [⟨.block slot, .ok (some block)⟩]
  | skipped + 1, slot => ⟨.block slot, .ok none⟩ :: walked block skipped (slot - 1)

/-- A walk goes back over as many empty slots as it may. -/
theorem ends_walk (first : UInt64) (block : Chain.Block) {skipped left : Nat} (h : skipped ≤ left)
    (slot : UInt64) : (walk first left slot).run.Ends (walked block skipped slot) (.ok block) := by
  induction skipped generalizing left slot with
  | zero =>
    unfold walk
    refine ends_run_bind.mpr ⟨some block, _, [], (List.append_nil _).symm, .ask (.refl _), ?_⟩
    exact .note (.refl _)
  | succ skipped ih =>
    cases left with
    | zero => exact absurd h (Nat.not_succ_le_zero _)
    | succ left =>
      unfold walk
      refine ends_run_bind.mpr ⟨none, [⟨.block slot, .ok none⟩], _, rfl, .ask (.refl _), ?_⟩
      exact .note (ih (Nat.le_of_succ_le_succ h) (slot - 1))

/-- A snapshot whose epoch is final is resolved by the walk back from its last slot. -/
theorem ends_resolve {endTime finalizedEpoch maxWalkback : UInt64} {timing : Chain.Timing} {p : Plan}
    (hplan : plan endTime timing = .ok p) (hfinal : p.requiredFinalizedEpoch ≤ finalizedEpoch)
    {skipped : Nat} (h : skipped ≤ min maxWalkback.toNat p.targetSlot.toNat) (block : Chain.Block) :
    (resolve endTime timing finalizedEpoch maxWalkback).run.Ends (walked block skipped p.targetSlot)
      (.ok (.ready ⟨endTime, p, block.slot, block.executionBlock⟩)) := by
  unfold resolve
  rw [hplan]
  refine ends_run_bind.mpr ⟨p, [], _, rfl, .refl _, ?_⟩
  dsimp only
  rw [if_neg (UInt64.not_lt.mpr hfinal)]
  exact ends_run_bind.mpr ⟨block, _, [], (List.append_nil _).symm, ends_walk _ block h _, .refl _⟩

end Snapshot

end OracleDuty
