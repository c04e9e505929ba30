import OracleDuty.Contract
import OracleDuty.Proofs.Abi
import OracleDuty.Proofs.Keccak
/-!
The call that submits a reward snapshot: a reader of the format gets every field of the submission back
from it, in the contract's order.

Main statements: `Contract.calldata_submission_reads_back` and `Contract.length_calldata_submission`.
-/
namespace OracleDuty

theorem Abi.length_selector (signature : String) : (Abi.selector signature).length = 4 := by
  rw [Abi.selector, List.length_take, Keccak.length_hash]
  rfl

theorem Bytes.ofString_injective {s t : String} (h : Bytes.ofString s = Bytes.ofString t) : s = t := by
  have ht := Bytes.text?_ofString t
  rw [← h, Bytes.text?_ofString] at ht
  exact Option.some.inj ht

namespace Contract

open Abi (Value Shape wordBytes)

def cidPart (x : SnapshotSubmission) : Bytes := (Value.bytes (Bytes.ofString x.merkleTreeCid)).encode

def submissionHead (x : SnapshotSubmission) : Bytes :=
  let trusted := 352 + (cidPart x).length
  let node := trusted + (Value.words x.trustedNodeRpl).encode.length
  let eth := node + (Value.words x.nodeRpl).encode.length
  x.rewardIndex.bytes ++ x.executionBlock.bytes ++ x.consensusBlock.bytes ++ Word.bytes x.merkleRoot ++
    wordBytes 352 ++ x.intervalsPassed.bytes ++ x.treasuryRpl.bytes ++ wordBytes trusted ++
    wordBytes node ++ wordBytes eth ++ x.userEth.bytes

theorem length_submissionHead (x : SnapshotSubmission) : (submissionHead x).length = 352 := by
  simp [submissionHead]

/-- The arguments are one offset, the head of the submission and the four fields of varying length. -/
theorem encode_submission (x : SnapshotSubmission) :
    (Value.tuple [submissionValue x]).encode = wordBytes 32 ++ (submissionHead x ++ (cidPart x ++
      ((Value.words x.trustedNodeRpl).encode ++ ((Value.words x.nodeRpl).encode ++
        (Value.words x.nodeEth).encode)))) := by
  simp [submissionValue, submissionHead, cidPart, Value.encode, Value.encodeAll, Value.isDynamic,
    Value.anyDynamic, Abi.layout, Abi.assemble, Abi.headSize]

theorem length_cidPart (x : SnapshotSubmission) :
    (cidPart x).length = 32 + 32 * (((Bytes.ofString x.merkleTreeCid).length + 31) / 32) := by
  rw [cidPart, Value.encode, List.length_append, Abi.length_wordBytes, Bytes.padRight,
    List.length_append, List.length_replicate]
  omega

theorem length_encode_words (ws : List Word) : (Value.words ws).encode.length = 32 + 32 * ws.length := by
  rw [Value.encode, List.length_append, Abi.length_wordBytes, Abi.length_flatMap_bytes]

theorem length_encode_submission (x : SnapshotSubmission) :
    (Value.tuple [submissionValue x]).encode.length =
      32 * (16 + ((Bytes.ofString x.merkleTreeCid).length + 31) / 32 + x.trustedNodeRpl.length +
        x.nodeRpl.length + x.nodeEth.length) := by
  simp only [encode_submission, List.length_append, Abi.length_wordBytes, length_submissionHead,
    length_cidPart, length_encode_words]
  omega

/-- The size of the call: the selector, sixteen words of offsets, lengths and single fields, the text in
whole words and a word for every amount. -/
theorem length_calldata_submission (x : SnapshotSubmission) :
    (calldata (.submitRewardSnapshot x)).length =
      4 + 32 * (16 + ((Bytes.ofString x.merkleTreeCid).length + 31) / 32 + x.trustedNodeRpl.length +
        x.nodeRpl.length + x.nodeEth.length) := by
  rw [calldata, Abi.call, List.length_append, Abi.length_selector, length_encode_submission]

/-- Every submission whose lists and text are counted in 64 bits has a call that the format can hold. -/
theorem length_calldata_submission_lt {x : SnapshotSubmission}
    (hc : (Bytes.ofString x.merkleTreeCid).length < UInt64.size)
    (ht : x.trustedNodeRpl.length < UInt64.size) (hn : x.nodeRpl.length < UInt64.size)
    (he : x.nodeEth.length < UInt64.size) :
    (calldata (.submitRewardSnapshot x)).length < Nat.pow 2 256 := by
  have hs : 4 + 32 * (17 + 4 * UInt64.size) < Nat.pow 2 256 := by decide
  rw [length_calldata_submission]
  omega

/-- The text stands behind the offset, the head and its own length, with zeros up to a whole word. -/
theorem drop_encode_submission (x : SnapshotSubmission) :
    ∃ more, ((Value.tuple [submissionValue x]).encode).drop 416 = Bytes.ofString x.merkleTreeCid ++
      (List.replicate ((32 - (Bytes.ofString x.merkleTreeCid).length % 32) % 32) 0 ++ more) := by
  let cid := Bytes.ofString x.merkleTreeCid
  let more := (Value.words x.trustedNodeRpl).encode ++ ((Value.words x.nodeRpl).encode ++
    (Value.words x.nodeEth).encode)
  have hl : (wordBytes 32 ++ (submissionHead x ++ wordBytes cid.length)).length = 416 := by
    simp only [List.length_append, Abi.length_wordBytes, length_submissionHead]
  have he : (Value.tuple [submissionValue x]).encode =
      (wordBytes 32 ++ (submissionHead x ++ wordBytes cid.length)) ++
        (cid ++ (List.replicate ((32 - cid.length % 32) % 32) 0 ++ more)) := by
    rw [encode_submission, cidPart, Value.encode, Bytes.padRight]
    simp only [List.append_assoc]
    rfl
  exact ⟨more, by rw [he, List.drop_left' hl]⟩

theorem submissionValue_injective {x y : SnapshotSubmission}
    (h : submissionValue x = submissionValue y) : x = y := by
  simp only [submissionValue, Value.tuple.injEq, List.cons.injEq, Value.word.injEq,
    Value.bytes.injEq, Value.words.injEq] at h
  obtain ⟨h1, h2, h3, h4, h5, h6, h7, h8, h9, h10, h11, -⟩ := h
  obtain ⟨x1, x2, x3, x4, x5, x6, x7, x8, x9, x10, x11⟩ := x
  simp only at h1 h2 h3 h4 h5 h6 h7 h8 h9 h10 h11
  rw [h1, h2, h3, h4, Bytes.ofString_injective h5, h6, h7, h8, h9, h10, h11]

/-- The call carries the submission: behind the selector, which is four bytes, a reader of the format finds
every field in the contract's order, the text stands padded with zeros to whole words, and no other
submission has the same call. The bound is where the format itself ends, an offset or a length being a
word. -/
theorem calldata_submission_reads_back (x : SnapshotSubmission)
    (h : (calldata (.submitRewardSnapshot x)).length < Nat.pow 2 256) :
    (∃ arguments cid : Bytes,
      calldata (.submitRewardSnapshot x) = Abi.selector
        ("submitRewardSnapshot((uint256,uint256,uint256,bytes32,string,uint256,uint256," ++
          "uint256[],uint256[],uint256[],uint256))") ++ arguments ∧
      (calldata (.submitRewardSnapshot x)).drop 4 = arguments ∧
      Shape.decode? (.tuple [.tuple [.word, .word, .word, .word, .bytes, .word, .word, .words, .words,
          .words, .word]]) arguments =
        some (.tuple [.tuple [.word x.rewardIndex, .word x.executionBlock, .word x.consensusBlock,
          .word x.merkleRoot, .bytes cid, .word x.intervalsPassed, .word x.treasuryRpl,
          .words x.trustedNodeRpl, .words x.nodeRpl, .words x.nodeEth, .word x.userEth]]) ∧
      Bytes.text? cid = some x.merkleTreeCid ∧
      (∃ more, arguments.drop 416 =
        cid ++ (List.replicate ((32 - cid.length % 32) % 32) 0 ++ more)) ∧
      32 ∣ arguments.length) ∧
    ∀ y, calldata (.submitRewardSnapshot y) = calldata (.submitRewardSnapshot x) → y = x := by
  -- the reader and the injectivity of the encoding are about the arguments alone
  have hc (y : SnapshotSubmission) : calldata (.submitRewardSnapshot y) =
      Abi.selector submissionSignature ++ (Value.tuple [submissionValue y]).encode := rfl
  have hlt : (Value.tuple [submissionValue x]).encode.length < Nat.pow 2 256 := by
    rw [hc, List.length_append] at h
    exact Nat.lt_of_le_of_lt (Nat.le_add_left _ _) h
  refine ⟨⟨(Value.tuple [submissionValue x]).encode, Bytes.ofString x.merkleTreeCid, rfl, ?_, ?_,
    Bytes.text?_ofString _, drop_encode_submission x, Value.dvd_length_encode _⟩, ?_⟩
  · rw [hc, List.drop_left' (Abi.length_selector _)]
  · have hd := Value.decode?_encode (.tuple [submissionValue x]) [] (by rwa [List.append_nil])
    rw [List.append_nil] at hd
    exact hd
  · intro y hy
    rw [hc, hc] at hy
    have he := (List.append_cancel_left hy).symm
    have hs : (Value.tuple [submissionValue x]).shape = (Value.tuple [submissionValue y]).shape := rfl
    have hv := Value.encode_inj hs hlt he
    rw [Value.tuple.injEq, List.cons.injEq] at hv
    exact (submissionValue_injective hv.1).symm

namespace Sample

def cid : String := "bafybeigdyrzt5sfp7udm7hu76uh7y26né"

def submission : SnapshotSubmission where
  rewardIndex := 31
  executionBlock := 21500000
  consensusBlock := 10700000
  merkleRoot := 7
  merkleTreeCid := cid
  intervalsPassed := 1
  treasuryRpl := 5
  trustedNodeRpl := [1, 2, 3]
  nodeRpl := []
  nodeEth := [BitVec.allOnes 256, 4]
  userEth := 6

end Sample

theorem calldata_submission_reads_back_sample :
    (calldata (.submitRewardSnapshot Sample.submission)).length < Nat.pow 2 256 ∧
    (∃ cid, Bytes.text? cid = some Sample.cid ∧
      Shape.decode? (.tuple [submissionShape])
        ((calldata (.submitRewardSnapshot Sample.submission)).drop 4) =
          some (.tuple [.tuple [.word 31, .word 21500000, .word 10700000, .word 7, .bytes cid, .word 1,
            .word 5, .words [1, 2, 3], .words [], .words [BitVec.allOnes 256, 4], .word 6]])) ∧
    ∀ y, calldata (.submitRewardSnapshot y) = calldata (.submitRewardSnapshot Sample.submission) →
      y = Sample.submission := by
  have hc : (Bytes.ofString Sample.cid).length = 35 := by decide +kernel
  have h : (calldata (.submitRewardSnapshot Sample.submission)).length < Nat.pow 2 256 := by
    have ht : (Bytes.ofString Sample.submission.merkleTreeCid).length < UInt64.size := by
      rw [show Sample.submission.merkleTreeCid = Sample.cid from rfl, hc]
      decide
    exact length_calldata_submission_lt ht (by decide) (by decide) (by decide)
  obtain ⟨⟨arguments, cid, -, hd, hr, ht, -⟩, hi⟩ :=
    calldata_submission_reads_back Sample.submission h
  refine ⟨h, ⟨cid, ht, ?_⟩, hi⟩
  rw [hd]
  exact hr

end Contract

end OracleDuty
