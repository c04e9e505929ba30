import OracleDuty.Word
/-!
What a relayed price costs: the arguments of the messenger call and the value to attach.
-/
namespace OracleDuty.Relay

inductive CallParams where
  | plain
  | arbitrum (maxSubmissionCost gasLimit maxFeePerGas : Word)
  | zkSyncEra (gasLimit gasPerPubdataByteLimit : Word)
deriving DecidableEq

def gwei : Nat := 1000000000

def ticketBytes : Word := 1400 + 6 * 36

def submissionCostMultiplier : Word := 4

def ticketGasLimit : Word := 40000

def ticketMaxFeePerGas : Word := BitVec.ofNat 256 (gwei / 10)

def pubdataMultiplier : Word := 17

def rollupGasLimit : Word := 750000

def gasPerPubdataByte : Word := 800

def minRollupGasPrice : Word := BitVec.ofNat 256 (gwei / 2)

def fee (f : Wei) : Word := f.setWidth 256

def arbitrumTicket (maxFee : Wei) : CallParams × Word :=
  let submissionCost := ticketBytes * fee maxFee * submissionCostMultiplier
  (.arbitrum submissionCost ticketGasLimit ticketMaxFeePerGas,
    ticketGasLimit * ticketMaxFeePerGas + submissionCost)

/-- The least gas price that covers the pubdata of a fee. -/
def pubdataGasPrice (maxFee : Wei) : Word :=
  let cost := pubdataMultiplier * fee maxFee
  let quotient := cost / gasPerPubdataByte
  if cost % gasPerPubdataByte = 0 then quotient else quotient + 1

def zkSyncEraTransaction (maxFee : Wei) : CallParams × Word :=
  let price := pubdataGasPrice maxFee
  let price := if price < minRollupGasPrice then minRollupGasPrice else price
  (.zkSyncEra rollupGasLimit gasPerPubdataByte, rollupGasLimit * price)

end OracleDuty.Relay
