import OracleDuty.Abi
import OracleDuty.Relay.Fee
import OracleDuty.Relay.Target
import OracleDuty.RewardsTree
/-!
The calls of the protocol's contracts: those that are read, and those that the node submits.
-/
namespace OracleDuty

inductive Call where
  | submitRewardSnapshot (submission : SnapshotSubmission)
  | submitPrices (block price : Word)
  | submitRate (target : Relay.Target) (messenger : Address) (params : Relay.CallParams)
deriving DecidableEq

def Call.label : Call → String
  | submitRewardSnapshot _ => "submit_reward_snapshot"
  | submitPrices .. => "submit_prices"
  | submitRate .. => "submit_rate"

/-- What is set on a transaction; what is not is left to the client. -/
structure TxOptions where
  value : Word
  gasLimit : Option UInt64
  maxFeePerGas : Option Wei
  maxPriorityFeePerGas : Option Wei
deriving DecidableEq

namespace Contract

open Abi (Value)

inductive Name where
  | rewardsPool
  | networkPrices
  | trustedNodes
  | networkSettings
deriving DecidableEq

def Name.text : Name → String
  | rewardsPool => "rocketRewardsPool"
  | networkPrices => "rocketNetworkPrices"
  | trustedNodes => "rocketDAONodeTrusted"
  | networkSettings => "rocketDAOProtocolSettingsNetwork"

def addressWord (a : Address) : Word := a.setWidth 256

inductive Read where
  | getAddress (key : Digest)
  | getBool (key : Digest)
  | getRewardIndex
  | getClaimIntervalTimeStart
  | getClaimIntervalTime
  | getPricesBlock
  | getLatestReportableBlock
  | getSubmitPricesEnabled
  | getMemberCount
  | getMemberAt (index : Word)
  | getMemberJoinedTime (member : Address)
  | observe (secondsAgo : List UInt32)
  | rateStale
deriving DecidableEq

def Read.signature : Read → String
  | getAddress _ => "getAddress(bytes32)"
  | getBool _ => "getBool(bytes32)"
  | getRewardIndex => "getRewardIndex()"
  | getClaimIntervalTimeStart => "getClaimIntervalTimeStart()"
  | getClaimIntervalTime => "getClaimIntervalTime()"
  | getPricesBlock => "getPricesBlock()"
  | getLatestReportableBlock => "getLatestReportableBlock()"
  | getSubmitPricesEnabled => "getSubmitPricesEnabled()"
  | getMemberCount => "getMemberCount()"
  | getMemberAt _ => "getMemberAt(uint256)"
  | getMemberJoinedTime _ => "getMemberJoinedTime(address)"
  | observe _ => "observe(uint32[])"
  | rateStale => "rateStale()"

def Read.arguments : Read → List Value
  | getAddress key | getBool key => [.word key]
  | getMemberAt index => [.word index]
  | getMemberJoinedTime member => [.word (addressWord member)]
  | observe secondsAgo => [.words (secondsAgo.map fun s => BitVec.ofNat 256 s.toNat)]
  | _ => []

def Read.calldata (r : Read) : Bytes := Abi.call r.signature r.arguments

def submissionValue (s : SnapshotSubmission) : Value := .tuple [
  .word s.rewardIndex, .word s.executionBlock, .word s.consensusBlock, .word s.merkleRoot,
  .bytes (Bytes.ofString s.merkleTreeCid), .word s.intervalsPassed, .word s.treasuryRpl,
  .words s.trustedNodeRpl, .words s.nodeRpl, .words s.nodeEth, .word s.userEth]

def submissionShape : Abi.Shape := .tuple [
  .word, .word, .word, .word, .bytes, .word, .word, .words, .words, .words, .word]

def submissionSignature : String :=
  "submitRewardSnapshot((uint256,uint256,uint256,bytes32,string,uint256,uint256,uint256[]," ++
    "uint256[],uint256[],uint256))"

def calldata : Call → Bytes
  | .submitRewardSnapshot s => Abi.call submissionSignature [submissionValue s]
  | .submitPrices block price => Abi.call "submitPrices(uint256,uint256)" [.word block, .word price]
  | .submitRate _ _ .plain => Abi.call "submitRate()" []
  | .submitRate _ _ (.arbitrum cost gasLimit maxFee) =>
    Abi.call "submitRate(uint256,uint256,uint256)" [.word cost, .word gasLimit, .word maxFee]
  | .submitRate _ _ (.zkSyncEra gasLimit perByte) =>
    Abi.call "submitRate(uint256,uint256)" [.word gasLimit, .word perByte]

/-- The one word of a result; what follows it is ignored. -/
def resultWord? (data : Bytes) : Option Word := Abi.wordAt? data 0

def resultFlag? (data : Bytes) : Option Bool := (resultWord? data).map fun w => w != 0

def resultAddress? (data : Bytes) : Option Address := (resultWord? data).map fun w => w.setWidth 160

def signed56 (w : Word) : Int64 := Int64.ofInt (w.setWidth 56).toInt

def resultCumulatives? (data : Bytes) : Option (List Int64) :=
  match Abi.Shape.decode? (.tuple [.words, .words]) data with
  | some (.tuple [.words ticks, .words _]) => some (ticks.map signed56)
  | _ => none

end OracleDuty.Contract
