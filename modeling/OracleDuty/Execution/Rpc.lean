import OracleDuty.Contract
import OracleDuty.Json.Record
/-!
The requests that an execution node serves, and reading their results.
-/
namespace OracleDuty.Rpc

inductive BlockId where
  | number (n : UInt64)
  | latest
deriving DecidableEq

def BlockId.text : BlockId → String
  | number n => Hex.quantity n.toNat
  | latest => "latest"

structure Draft where
  sender : Address
  recipient : Address
  input : Bytes
  value : Word
  nonce : UInt64
deriving DecidableEq

structure Transaction extends Draft where
  chainId : UInt64
  gasLimit : UInt64
  maxFeePerGas : Wei
  maxPriorityFeePerGas : Wei
deriving DecidableEq

inductive Call where
  | blockNumber
  | block (id : BlockId)
  | read (contract : Address) (input : Bytes) (block : BlockId)
  | chainId
  | transactionCount (account : Address)
  | feeHistory
  | estimateGas (draft : Draft)
  | send (transaction : Transaction)
  | receipt (transaction : Digest)
deriving DecidableEq

def Call.method : Call → String
  | blockNumber => "eth_blockNumber"
  | block _ => "eth_getBlockByNumber"
  | read .. => "eth_call"
  | chainId => "eth_chainId"
  | transactionCount _ => "eth_getTransactionCount"
  | feeHistory => "eth_feeHistory"
  | estimateGas _ => "eth_estimateGas"
  | send _ => "eth_sendRawTransaction"
  | receipt _ => "eth_getTransactionReceipt"

/-! ### Results -/

def quantity? : Json → Option Nat
  | .integer i => if 0 ≤ i then some i.toNat else none
  | j => (Json.amount? j).map BitVec.toNat

def quantityBelow? (bits : Nat) (j : Json) : Option Nat :=
  (quantity? j).bind fun n => if n < Nat.pow 2 bits then some n else none

def uint64? (j : Json) : Option UInt64 := (quantityBelow? 64 j).map UInt64.ofNat

def amounts? : Json → Option (List Nat)
  | .array items => items.mapM (quantityBelow? 128)
  | _ => none

def bytes? : Json → Option Bytes
  | .string s => Hex.decode? (Hex.stripMark s.toList)
  | _ => none

def bytesOf? (length : Nat) (j : Json) : Option Bytes :=
  (bytes? j).filter fun bs => bs.length = length

structure Header where
  number : UInt64
  hash : Digest
  timestamp : UInt64
  baseFeePerGas : Option UInt64
deriving DecidableEq

def blockDigests : List (String × Nat) :=
  [("parentHash", 32), ("sha3Uncles", 32), ("miner", 20), ("stateRoot", 32),
   ("transactionsRoot", 32), ("receiptsRoot", 32), ("logsBloom", 256)]

def optional? {α : Type} (read : Json → Option α) : Option Json → Option (Option α)
  | none => some none
  | some .null => some none
  | some j => (read j).map some

def Header.ofJson? : Json → Option Header
  | .object entries => do
    let field {α : Type} (key : String) (read : Json → Option α) : Option α := do
      (← Json.unique? entries key).bind read
    guard (blockDigests.all fun (key, length) => (field key (bytesOf? length)).isSome)
    guard (["difficulty", "gasLimit", "gasUsed"].all fun key => (field key quantity?).isSome)
    guard (field "extraData" bytes?).isSome
    return {
      number := ← field "number" uint64?
      hash := ← field "hash" Json.digest?
      timestamp := ← field "timestamp" uint64?
      baseFeePerGas := ← optional? uint64? (← Json.unique? entries "baseFeePerGas") }
  | _ => none

structure FeeHistory where
  baseFeePerGas : List Nat
  reward : List (List Nat)
deriving DecidableEq

def FeeHistory.ofJson? : Json → Option FeeHistory
  | .object entries => do
    let base ← Json.unique? entries "baseFeePerGas"
    let reward ← Json.unique? entries "reward"
    let rewards : Json → Option (List (List Nat))
      | .array items => items.mapM amounts?
      | _ => none
    match ← Json.unique? entries "gasUsedRatio" with
    | some (.array _) => pure ()
    | _ => none
    return ⟨← (base.map amounts?).getD (some []), (← optional? rewards reward).getD []⟩
  | _ => none

namespace FeeHistory

/-- The base fee of the latest block: the one before the last, which is a forecast. -/
def latestBaseFee? (h : FeeHistory) : Option Nat :=
  if h.baseFeePerGas.length < 2 then none else h.baseFeePerGas[h.baseFeePerGas.length - 2]?

def median (sorted : List Nat) : Nat :=
  let k := sorted.length / 2
  if sorted.length % 2 = 1 then sorted.getD k 0
  else (sorted.getD (k - 1) 0 + sorted.getD k 0) / 2

/-- The priority fee: the median of the positive first rewards, and at least one. -/
def priorityFee (h : FeeHistory) : Nat :=
  let firsts := (h.reward.filterMap List.head?).filter (0 < ·)
  max 1 (median (firsts.mergeSort (· ≤ ·)))

end FeeHistory

structure Fees where
  maxFeePerGas : Wei
  maxPriorityFeePerGas : Wei
deriving DecidableEq

def Fees.ofBase (base priority : Nat) : Fees :=
  ⟨BitVec.ofNat 128 (2 * base + priority), BitVec.ofNat 128 priority⟩

structure Receipt where
  succeeded : Bool
  block : Option UInt64
deriving DecidableEq

def Receipt.ofJson? : Json → Option Receipt
  | .object entries => do
    let status ← (← Json.unique? entries "status").bind (quantityBelow? 64)
    return ⟨status != 0, ← optional? uint64? (← Json.unique? entries "blockNumber")⟩
  | _ => none

end OracleDuty.Rpc
