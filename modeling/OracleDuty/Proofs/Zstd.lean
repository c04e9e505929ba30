import OracleDuty.Zstd
/-!
A compressed content decompresses to itself, whatever its length.

Main statement: `decompress?_compress`.
-/
namespace OracleDuty.Zstd

theorem ofLittleEndian_littleEndian (width n : Nat) :
    ofLittleEndian (littleEndian width n) = n % Nat.pow 256 width := by
  rw [ofLittleEndian, littleEndian, List.reverse_reverse, Bytes.toNat_bigEndian]

/-- A block's header is three bytes that tell its size and whether it is the last one. -/
theorem blockHeader_eq (last : Bool) {size : Nat} (h : size ≤ blockLimit) :
    ∃ a b c, blockHeader last size = [a, b, c] ∧
      ofLittleEndian [a, b, c] = 8 * size + if last then 1 else 0 := by
  have hl : (blockHeader last size).length = 3 := by simp [blockHeader, littleEndian]
  have hn : ofLittleEndian (blockHeader last size) = 8 * size + if last then 1 else 0 := by
    rw [blockHeader, ofLittleEndian_littleEndian]
    apply Nat.mod_eq_of_lt
    have hp : Nat.pow 256 3 = 16777216 := rfl
    simp only [blockLimit] at h
    split <;> omega
  match hb : blockHeader last size, hl with
  | [a, b, c], _ => exact ⟨a, b, c, rfl, by rw [← hn, hb]⟩

theorem blocksContent?_last {bs : Bytes} (h : bs.length ≤ blockLimit) :
    blocksContent? (blockHeader true bs.length ++ bs) = some bs := by
  obtain ⟨a, b, c, hb, hn⟩ := blockHeader_eq true h
  simp only [if_true] at hn
  rw [hb, List.cons_append, List.cons_append, List.cons_append, List.nil_append, blocksContent?]
  simp only [hn]
  rw [if_neg (by omega), if_pos (by omega), if_pos (by omega)]

/-- A whole block in front adds its bytes to the content. -/
theorem blocksContent?_more {block rest content : Bytes} (hl : block.length = blockLimit)
    (h : blocksContent? rest = some content) :
    blocksContent? (blockHeader false blockLimit ++ (block ++ rest)) = some (block ++ content) := by
  obtain ⟨a, b, c, hb, hn⟩ := blockHeader_eq false (Nat.le_refl blockLimit)
  have hs : (8 * blockLimit + if false = true then 1 else 0) / 8 = blockLimit := by decide
  have hr : (block ++ rest).length ≥ blockLimit := by
    rw [List.length_append]
    omega
  rw [hb, List.cons_append, List.cons_append, List.cons_append, List.nil_append, blocksContent?]
  simp only [hn, hs]
  rw [if_neg (by simp only [Bool.false_eq_true, if_false]; omega), if_neg (by decide),
    List.drop_left' hl, List.take_left' hl, h, Option.map_some]

/-- The blocks of a content hold it. -/
theorem blocksContent?_blocks (bs : Bytes) : blocksContent? (blocks bs) = some bs := by
  fun_induction blocks bs with
  | case1 bs h => exact blocksContent?_last h
  | case2 bs h ih =>
    -- all blocks but the last are of full size
    have hl : (bs.take blockLimit).length = blockLimit := by
      rw [List.length_take]
      omega
    rw [List.append_assoc, blocksContent?_more hl ih, List.take_append_drop]

theorem decompress?_compress (bs : Bytes) : decompress? (compress bs) = some bs := by
  have ht : (compress bs).take 6 = mark ++ [descriptor, window] := rfl
  have hd : (compress bs).drop 6 = blocks bs := rfl
  rw [decompress?, if_pos ht, hd, blocksContent?_blocks]

end OracleDuty.Zstd
