import OracleDuty.Duty.Action
import OracleDuty.Execution.Error
import OracleDuty.Submission.Key
import OracleDuty.Wire
/-!
An execution node: reading the contracts of the protocol at a block, and having the calls of an account
mined.
-/
namespace OracleDuty.Execution

open Contract (Name Read)

structure Node where
  endpoint : Url
  account : Address
  registry : Address
deriving DecidableEq

namespace Node

variable {α : Type}

def ask (n : Node) (cause : String → Error) (read : Json → Option α) (call : Rpc.Call) :
    Wire.Action Error α := do
  let result ← Wire.attempt cause (Program.request (A := Wire.Answer) (.rpc n.endpoint call))
  match read result with
  | some a => return a
  | none => throw (cause "unexpected result")

def latestBlock (n : Node) : Wire.Action Error UInt64 := n.ask .rpc Rpc.uint64? .blockNumber

def header? (n : Node) (cause : String → Error) (id : Rpc.BlockId) :
    Wire.Action Error (Option Rpc.Header) :=
  n.ask cause (fun j => Rpc.optional? Rpc.Header.ofJson? (some j)) (.block id)

def header (n : Node) (block : UInt64) : Wire.Action Error Rpc.Header := do
  match ← n.header? .rpc (.number block) with
  | some h => return h
  | none => throw (.blockNotFound block)

/-! ### Reading contracts -/

def read (n : Node) (block : Rpc.BlockId) (target : Address) (what : Read)
    (result : Bytes → Option α) : Wire.Action Error α :=
  n.ask .contract (fun j => (Rpc.bytes? j).bind result) (.read target what.calldata block)

def contract (n : Node) (block : Rpc.BlockId) (name : Name) : Wire.Action Error Address := do
  let a ← n.read block n.registry (.getAddress (Registry.key name.text)) Contract.resultAddress?
  if a = 0 then throw (.missingContract name) else return a

def fitting (field : String) (w : Word) : Wire.Action Error UInt64 :=
  match w.toUInt64? field with
  | .ok k => pure k
  | .error e => throw (.overflow e)

def flag (n : Node) (key : Digest) (block : Option UInt64) : Wire.Action Error Bool :=
  n.read ((block.map .number).getD .latest) n.registry (.getBool key) Contract.resultFlag?

def rewardInterval (n : Node) (block : UInt64) : Wire.Action Error Interval := do
  let at_ := Rpc.BlockId.number block
  let pool ← n.contract at_ .rewardsPool
  let index ← n.read at_ pool .getRewardIndex Contract.resultWord?
  let start ← n.read at_ pool .getClaimIntervalTimeStart Contract.resultWord?
  let duration ← n.read at_ pool .getClaimIntervalTime Contract.resultWord?
  return {
    index := ← fitting "reward_index" index
    startTime := ← fitting "interval_start" start
    duration := ← fitting "interval_duration" duration }

def priceSettings (n : Node) (block : UInt64) : Wire.Action Error PriceSettings := do
  let at_ := Rpc.BlockId.number block
  let settings ← n.contract at_ .networkSettings
  let prices ← n.contract at_ .networkPrices
  let enabled ← n.read at_ settings .getSubmitPricesEnabled Contract.resultFlag?
  let pricesBlock ← n.read at_ prices .getPricesBlock Contract.resultWord?
  let reportable ← n.read at_ prices .getLatestReportableBlock Contract.resultWord?
  return {
    enabled
    pricesBlock := ← fitting "prices_block" pricesBlock
    latestReportableBlock := ← fitting "latest_reportable_block" reportable }

def member (n : Node) (block : Rpc.BlockId) (nodes : Address) (index : Nat) :
    Wire.Action Error Member := do
  let address ← n.read block nodes (.getMemberAt (BitVec.ofNat 256 index)) Contract.resultAddress?
  let joined ← n.read block nodes (.getMemberJoinedTime address) Contract.resultWord?
  return ⟨address, ← fitting "member_joined_time" joined⟩

def members (n : Node) (block : UInt64) : Wire.Action Error (List Member) := do
  let at_ := Rpc.BlockId.number block
  let nodes ← n.contract at_ .trustedNodes
  let count ← n.read at_ nodes .getMemberCount Contract.resultWord?
  let count ← fitting "member_count" count
  (List.range count.toNat).mapM (n.member at_ nodes)

def observe (n : Node) (pool : Address) (secondsAgo : List UInt32) (block : UInt64) :
    Wire.Action Error (List Int64) :=
  n.read (.number block) pool (.observe secondsAgo) Contract.resultCumulatives?

def stale (n : Node) (messengers : List (Relay.Target × Address)) (block : UInt64) :
    Wire.Action Error (List Bool) :=
  messengers.mapM fun m => n.read (.number block) m.2 .rateStale Contract.resultFlag?

/-! ### Transactions -/

/-- The fees that a transaction would pay now. Where recent blocks tell of no base fee, the latest block
has to. -/
def fees (n : Node) (cause : String → Error) : Wire.Action Error Rpc.Fees := do
  let history ← n.ask cause Rpc.FeeHistory.ofJson? .feeHistory
  match history.latestBaseFee?.filter (0 < ·) with
  | some base => return .ofBase base history.priorityFee
  | none =>
    let some latest ← n.header? cause .latest | throw (cause "no latest block")
    let some base := latest.baseFeePerGas | throw (cause "no base fee")
    return .ofBase base.toNat history.priorityFee

def suggestedFee (n : Node) : Wire.Action Error Wei := do return (← n.fees .rpc).maxFeePerGas

def recipient (n : Node) : Call → Wire.Action Error Address
  | .submitRewardSnapshot _ => n.contract .latest .rewardsPool
  | .submitPrices .. => n.contract .latest .networkPrices
  | .submitRate _ messenger _ => pure messenger

/-- A transaction with all that its options leave open. Fees are taken over only if both are set. -/
def transaction (n : Node) (target : Address) (call : Call) (options : TxOptions) :
    Wire.Action Error Rpc.Transaction := do
  let nonce ← n.ask .contract Rpc.uint64? (.transactionCount n.account)
  let chainId ← n.ask .contract Rpc.uint64? .chainId
  let draft : Rpc.Draft := ⟨n.account, target, Contract.calldata call, options.value, nonce⟩
  let gasLimit ← match options.gasLimit with
    | some limit => pure limit
    | none => n.ask .contract Rpc.uint64? (.estimateGas draft)
  let fees ← match options.maxFeePerGas, options.maxPriorityFeePerGas with
    | some fee, some priority => pure ⟨fee, priority⟩
    | _, _ => n.fees .contract
  return ⟨draft, chainId, gasLimit, fees.maxFeePerGas, fees.maxPriorityFeePerGas⟩

def shownBlock : Option UInt64 → String
  | some b => s!"Some({b})"
  | none => "None"

def confirm (n : Node) (hash : Digest) : Wire.Action Error Digest := do
  let shown := Log.Value.shown (Digest.text hash)
  Wire.log .execution .info "Transaction sent, waiting for receipt" [("tx_hash", shown)]
  let receipt ← n.ask .pendingTransaction Rpc.Receipt.ofJson? (.receipt hash)
  if !receipt.succeeded then throw (.reverted hash)
  Wire.log .execution .debug "Transaction mined"
    [("tx_hash", shown), ("block_number", .shown (shownBlock receipt.block))]
  return hash

def submit (n : Node) (call : Call) (options : TxOptions) : Wire.Action Error Digest := do
  Wire.log .execution .debug "Preparing transaction"
    [("call", .text call.label), ("value", .shown options.value.decimal)]
  let target ← n.recipient call
  let hash ← n.ask .contract Json.digest? (.send (← n.transaction target call options))
  n.confirm hash

end Node

end OracleDuty.Execution
