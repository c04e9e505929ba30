import OracleDuty.Instant
import OracleDuty.OrderedMap
import OracleDuty.Word
/-!
The rewards tree of an interval, and the snapshot that is submitted for it.
-/
namespace OracleDuty

structure TotalRewards where
  protocolDaoRpl : Word
  totalCollateralRpl : Word
  totalOracleDaoRpl : Word
  totalSmoothingPoolEth : Word
  poolStakerSmoothingPoolEth : Word
  nodeOperatorSmoothingPoolEth : Word
deriving DecidableEq

structure NetworkRewards where
  collateralRpl : Word
  oracleDaoRpl : Word
  smoothingPoolEth : Word
deriving DecidableEq

structure NodeRewards where
  rewardNetwork : UInt64
  collateralRpl : Word
  oracleDaoRpl : Word
  smoothingPoolEth : Word
  merkleProof : List Digest
deriving DecidableEq

structure RewardsHeader where
  rewardsFileVersion : UInt64
  rulesetVersion : UInt64
  index : UInt64
  network : String
  startTime : Instant
  endTime : Instant
  consensusStartBlock : UInt64
  consensusEndBlock : UInt64
  executionStartBlock : UInt64
  executionEndBlock : UInt64
  intervalsPassed : UInt64
  merkleRoot : Digest
  minipoolPerformanceFileCid : String
  totalRewards : TotalRewards
  networkRewards : OrderedMap UInt64 NetworkRewards
deriving DecidableEq

structure RewardsTree where
  header : RewardsHeader
  nodeRewards : OrderedMap Address NodeRewards
deriving DecidableEq

structure SnapshotSubmission where
  rewardIndex : Word
  executionBlock : Word
  consensusBlock : Word
  merkleRoot : Digest
  merkleTreeCid : String
  intervalsPassed : Word
  treasuryRpl : Word
  trustedNodeRpl : List Word
  nodeRpl : List Word
  nodeEth : List Word
  userEth : Word
deriving DecidableEq

namespace RewardsTree

def contiguous (next : Nat) : List (UInt64 × NetworkRewards) → List NetworkRewards
  | [] => []
  | (k, r) :: rest => if k.toNat = next then r :: contiguous (next + 1) rest else []

/-- The rewards of networks 0, 1, 2, … up to the first that is missing. -/
def leadingNetworks (t : RewardsTree) : List NetworkRewards :=
  contiguous 0 t.header.networkRewards.entries

def word (n : UInt64) : Word := BitVec.ofNat 256 n.toNat

@[simp] theorem toNat_word (n : UInt64) : (word n).toNat = n.toNat :=
  (BitVec.toNat_ofNat _ _).trans (Nat.mod_eq_of_lt (Nat.lt_trans n.toNat_lt (by decide)))

def submission (t : RewardsTree) (cid : String) : SnapshotSubmission where
  rewardIndex := word t.header.index
  executionBlock := word t.header.executionEndBlock
  consensusBlock := word t.header.consensusEndBlock
  merkleRoot := t.header.merkleRoot
  merkleTreeCid := cid
  intervalsPassed := word t.header.intervalsPassed
  treasuryRpl := t.header.totalRewards.protocolDaoRpl
  trustedNodeRpl := t.leadingNetworks.map (·.oracleDaoRpl)
  nodeRpl := t.leadingNetworks.map (·.collateralRpl)
  nodeEth := t.leadingNetworks.map (·.smoothingPoolEth)
  userEth := t.header.totalRewards.poolStakerSmoothingPoolEth

end OracleDuty.RewardsTree
