import Mathlib.Data.List.Nodup
import Mathlib.Data.Nat.Periodic
import Mathlib.Order.Interval.Finset.Nat
import OracleDuty.Proofs.Checked
import OracleDuty.Turn
/-!
Turns over the blocks: every member has the same number of blocks in any window as long as a round of turns,
wherever the window begins.

Main statement: `turns_fair`.
-/
namespace OracleDuty.Turn

open Checked

/-! ### Counting turns -/

section Counting

variable {k n i : Nat}

/-- All blocks of a turn are one member's. -/
theorem count_turn {turn : Nat} (hturn : turn < n) :
    Nat.count (fun b => (turn * k + b) / k % n = i) k = if turn = i then k else 0 := by
  have hsame : ∀ b < k, (turn * k + b) / k % n = turn := by
    intro b hb
    have hdiv : (turn * k + b) / k = turn := by
      apply Nat.div_eq_of_lt_le
      · exact Nat.le_add_right _ _
      · rw [Nat.succ_mul]
        exact Nat.add_lt_add_left hb _
    rw [hdiv, Nat.mod_eq_of_lt hturn]
  split
  · next heq =>
    apply Nat.count_of_forall
    intro b hb
    exact (hsame b hb).trans heq
  · next hne =>
    apply Nat.count_of_forall_not
    intro b hb heq
    exact hne ((hsame b hb).symm.trans heq)

/-- Over the first turns each member has one, in the order of the members. -/
theorem count_turns {turns : Nat} (hturns : turns ≤ n) :
    Nat.count (fun b => b / k % n = i) (turns * k) = if i < turns then k else 0 := by
  induction turns with
  | zero => rw [Nat.zero_mul, Nat.count_zero, if_neg (Nat.not_lt_zero i)]
  | succ turns ih =>
    -- the last turn is that of the member who had none before
    rw [Nat.succ_mul, Nat.count_add, ih (Nat.le_of_succ_le hturns), count_turn hturns]
    by_cases hlast : turns = i
    · rw [if_pos hlast, if_neg (by omega), if_pos (by omega), Nat.zero_add]
    · rw [if_neg hlast, Nat.add_zero]
      exact if_congr (by omega) rfl rfl

/-- Turns come back after a round of them. -/
theorem turn_periodic (hk : 0 < k) : Function.Periodic (fun b => b / k % n = i) (n * k) := by
  intro b
  dsimp only
  rw [Nat.add_mul_div_right _ _ hk, Nat.add_mod_right]

/-- So it does not matter where a window begins that is as long as a round. -/
theorem countP_window (hk : 0 < k) (hi : i < n) (first : Nat) :
    (List.range' first (n * k)).countP (fun b => b / k % n = i) = k := by
  have hcard : (List.range' first (n * k)).countP (fun b => b / k % n = i) =
      ((Finset.Ico first (first + n * k)).filter fun b => b / k % n = i).card := by
    rw [List.countP_eq_length_filter]
    change _ = ((List.range' first (first + n * k - first)).filter fun b => b / k % n = i).length
    rw [Nat.add_sub_cancel_left]
  rw [hcard, Nat.filter_Ico_card_eq_of_periodic _ _ _ (turn_periodic hk), count_turns (Nat.le_refl n),
    if_pos hi]

end Counting

/-! ### Selections -/

/-- Consecutive blocks. -/
def blocksFrom (first : UInt64) (count : Nat) : List UInt64 := (List.range' first.toNat count).map UInt64.ofNat

variable {first block k n i : UInt64}

theorem selected?_eq (hk : k ≠ 0) (hn : n ≠ 0) (block : UInt64) :
    selected? block k n = some (block / k % n) := by
  have hsome : ¬(k = 0 ∨ n = 0) := by
    rintro (h | h)
    · exact hk h
    · exact hn h
  exact if_neg hsome

theorem isMine_iff (hk : k ≠ 0) (hn : n ≠ 0) :
    isMine i block k n = true ↔ block.toNat / k.toNat % n.toNat = i.toNat := by
  rw [isMine, selected?_eq hk hn, beq_iff_eq, Option.some.injEq, ← UInt64.toNat_inj, UInt64.toNat_mod,
    UInt64.toNat_div]

/-- A member has one turn in any window as long as a round, in one piece or in two. -/
theorem countP_isMine (hk : k ≠ 0) (hi : i < n) (hfit : first.toNat + n.toNat * k.toNat ≤ UInt64.size) :
    (blocksFrom first (n.toNat * k.toNat)).countP (isMine i · k n) = k.toNat := by
  have hi' := UInt64.lt_iff_toNat_lt.mp hi
  have hn : n ≠ 0 := by
    rintro rfl
    exact absurd hi' (Nat.not_lt_zero _)
  have hmine : ∀ b ∈ List.range' first.toNat (n.toNat * k.toNat),
      isMine i (UInt64.ofNat b) k n = true ↔ decide (b / k.toNat % n.toNat = i.toNat) = true := by
    intro b hb
    have hlt : b < UInt64.size := Nat.lt_of_lt_of_le (List.mem_range'_1.mp hb).2 hfit
    rw [isMine_iff hk hn, UInt64.toNat_ofNat_of_lt' hlt, decide_eq_true_iff]
  calc (blocksFrom first (n.toNat * k.toNat)).countP (isMine i · k n)
      = (List.range' first.toNat (n.toNat * k.toNat)).countP fun b => isMine i (UInt64.ofNat b) k n :=
        List.countP_map
    _ = (List.range' first.toNat (n.toNat * k.toNat)).countP fun b =>
          b / k.toNat % n.toNat = i.toNat := List.countP_congr hmine
    _ = k.toNat := countP_window (toNat_pos hk) hi' first.toNat

theorem count_selected? (hk : k ≠ 0) (hi : i < n)
    (hfit : first.toNat + n.toNat * k.toNat ≤ UInt64.size) :
    ((blocksFrom first (n.toNat * k.toNat)).map (selected? · k n)).count (some i) = k.toNat := by
  rw [List.count_eq_countP, List.countP_map]
  exact countP_isMine hk hi hfit

theorem selected?_lt (hk : k ≠ 0) (hn : n ≠ 0) (block : UInt64) :
    ∃ i < n, selected? block k n = some i := by
  refine ⟨_, ?_, selected?_eq hk hn block⟩
  rw [UInt64.lt_iff_toNat_lt, UInt64.toNat_mod]
  exact Nat.mod_lt _ (toNat_pos hn)

/-- From a block to the next one the selection stays, but where a turn ends it passes to the next index. -/
theorem selected?_succ (hk : k ≠ 0) (hn : n ≠ 0) (hblock : block.toNat + 1 < UInt64.size)
    (hi : selected? block k n = some i) :
    selected? (block + 1) k n = if k.toNat ∣ block.toNat + 1 then some ((i + 1) % n) else some i := by
  obtain rfl : block / k % n = i := Option.some.inj ((selected?_eq hk hn block).symm.trans hi)
  have hsucc : (block + 1).toNat = block.toNat + 1 := by
    rw [UInt64.toNat_add]
    exact Nat.mod_eq_of_lt hblock
  have hturn : ((block + 1) / k).toNat = (block.toNat + 1) / k.toNat := by rw [UInt64.toNat_div, hsucc]
  rw [selected?_eq hk hn]
  split
  · next hend =>
    apply congrArg some
    apply UInt64.toNat_inj.mp
    -- the next index is at most the number of members, so it does not wrap around
    have hlt : block.toNat / k.toNat % n.toNat < n.toNat := Nat.mod_lt _ (toNat_pos hn)
    have hnext : (block / k % n + 1).toNat = block.toNat / k.toNat % n.toNat + 1 := by
      have hbound := n.toNat_lt_size
      rw [UInt64.toNat_add, UInt64.toNat_mod, UInt64.toNat_div]
      exact Nat.mod_eq_of_lt (Nat.lt_of_le_of_lt hlt hbound)
    rw [UInt64.toNat_mod, hturn, Nat.succ_div_of_dvd hend, UInt64.toNat_mod, hnext, Nat.mod_add_mod]
  · next hinside =>
    have hsame : (block + 1) / k = block / k := by
      apply UInt64.toNat_inj.mp
      rw [hturn, Nat.succ_div_of_not_dvd hinside, UInt64.toNat_div]
    rw [hsame]

/-! ### Members -/

/-- A member's index is its position in the list, if no other member has its address. -/
theorem indexOf?_getElem {members : List Member} (hdistinct : (members.map (·.address)).Nodup)
    {position : Nat} (hlt : position < members.length) :
    indexOf? members members[position].address = some (UInt64.ofNat position) := by
  have hfirst : members.findIdx? (fun m => m.address == members[position].address) = some position := by
    apply List.findIdx?_eq_some_iff_getElem.mpr
    refine ⟨hlt, beq_self_eq_true _, ?_⟩
    intro earlier hearlier heq
    have hlt' : position < (members.map (·.address)).length := by simpa using hlt
    have hbefore := Nat.lt_trans hearlier hlt'
    have hsame : (members.map (·.address))[earlier] = (members.map (·.address))[position] := by
      simpa using heq
    exact Nat.ne_of_lt hearlier (hdistinct.getElem_inj_iff.mp hsame)
  rw [indexOf?, hfirst, Option.map_some]

/-- Among as many consecutive blocks as a round of turns has, wherever they begin, each index is selected in as
many blocks as a turn has, and nothing else is. The selection passes on at the ends of turns only, and then to
the next index. So every member of a list with distinct addresses has the same number of blocks to itself. -/
theorem turns_fair (first k n : UInt64) (hk : k ≠ 0) (hn : n ≠ 0)
    (hfit : first.toNat + n.toNat * k.toNat ≤ UInt64.size) :
    (∀ i < n, ((blocksFrom first (n.toNat * k.toNat)).map (selected? · k n)).count (some i) = k.toNat) ∧
    (∀ r ∈ (blocksFrom first (n.toNat * k.toNat)).map (selected? · k n), ∃ i < n, r = some i) ∧
    (∀ block i : UInt64, block.toNat + 1 < UInt64.size → selected? block k n = some i →
      selected? (block + 1) k n = if k.toNat ∣ block.toNat + 1 then some ((i + 1) % n) else some i) ∧
    ∀ members : List Member, members.length = n.toNat → (members.map (·.address)).Nodup →
      ∀ position (hlt : position < members.length), ∃ index : UInt64,
        indexOf? members members[position].address = some index ∧ index.toNat = position ∧
        (blocksFrom first (n.toNat * k.toNat)).countP (isMine index · k n) = k.toNat := by
  refine ⟨fun i hi => count_selected? hk hi hfit, ?_, ?_, ?_⟩
  · intro r hr
    obtain ⟨block, -, rfl⟩ := List.mem_map.mp hr
    exact selected?_lt hk hn block
  · intro block i hblock hi
    exact selected?_succ hk hn hblock hi
  · intro members hcount hdistinct position hlt
    have hsize : position < UInt64.size :=
      Nat.lt_trans (hcount ▸ hlt) n.toNat_lt_size
    have hposition : (UInt64.ofNat position).toNat = position := UInt64.toNat_ofNat_of_lt' hsize
    have hi : UInt64.ofNat position < n := by
      rw [UInt64.lt_iff_toNat_lt, hposition, ← hcount]
      exact hlt
    exact ⟨_, indexOf?_getElem hdistinct hlt, hposition, countP_isMine hk hi hfit⟩

/-- The last window of three members, which begins within a turn and ends with the last block there is: the second
member has 75 blocks of it. Its turn passes to the third member at block 150. -/
theorem turns_fair_last_window :
    let members : List Member := [⟨10, 0⟩, ⟨11, 0⟩, ⟨12, 0⟩]
    let blocks := blocksFrom 18446744073709551391 225
    (blocks.map (selected? · 75 3)).count (some 1) = 75 ∧
    none ∉ blocks.map (selected? · 75 3) ∧
    selected? 150 75 3 = some 2 ∧
    ∃ index, indexOf? members 11 = some index ∧ index.toNat = 1 ∧
      blocks.countP (isMine index · 75 3) = 75 := by
  intro members blocks
  obtain ⟨hcount, honly, hnext, hmembers⟩ :=
    turns_fair 18446744073709551391 75 3 (by decide) (by decide) (by decide)
  refine ⟨hcount 1 (by decide), ?_, hnext 149 1 (by decide) (by decide), ?_⟩
  · intro hnone
    obtain ⟨i, -, hi⟩ := honly _ hnone
    cases hi
  · exact hmembers members rfl (by decide) 1 (by decide)

end OracleDuty.Turn
