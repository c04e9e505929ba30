import OracleDuty.Contract
/-!
What can go wrong when an execution node is asked.
-/
namespace OracleDuty.Execution

inductive Error where
  | invalidPrivateKey (reason : String)
  | rpc (reason : String)
  | contract (reason : String)
  | pendingTransaction (reason : String)
  | blockNotFound (block : UInt64)
  | reverted (transaction : Digest)
  | overflow (cause : Word.Overflow)
  | missingContract (name : Contract.Name)
deriving DecidableEq

def Error.message : Error → String
  | invalidPrivateKey reason => s!"Invalid private key: {reason}"
  | rpc reason => s!"RPC error: {reason}"
  | contract reason => s!"Contract call failed: {reason}"
  | pendingTransaction reason => s!"Pending transaction error: {reason}"
  | blockNotFound block => s!"Block {block} not found"
  | reverted transaction => s!"Transaction {Digest.text transaction} reverted"
  | overflow cause => cause.message
  | missingContract name => s!"Contract {name.text} is not deployed"

end OracleDuty.Execution
