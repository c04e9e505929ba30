import OracleDuty.Account.Signature
import OracleDuty.Execution.Rpc
import OracleDuty.Json.Printer
import OracleDuty.Rlp
/-!
Requests to an execution node as documents, and transactions as the signed bytes that are sent.
-/
namespace OracleDuty.Rpc

def Transaction.fields (t : Transaction) : List Bytes := [
  Rlp.number t.chainId.toNat, Rlp.number t.nonce.toNat, Rlp.number t.maxPriorityFeePerGas.toNat,
  Rlp.number t.maxFeePerGas.toNat, Rlp.number t.gasLimit.toNat, Rlp.bytes t.recipient.bytes,
  Rlp.number t.value.toNat, Rlp.bytes t.input, Rlp.list []]

def Transaction.signed? (t : Transaction) (key : Nat) : Option Bytes := do
  let signature ← Account.sign? key (Keccak.hash (2 :: Rlp.list t.fields))
  return 2 :: Rlp.list (t.fields ++ [Rlp.number (if signature.isOdd then 1 else 0),
    Rlp.number signature.r, Rlp.number signature.s])

def quantityJson (k : Nat) : Json := .string (Hex.quantity k)

def Draft.toJson (d : Draft) : Json := .object [
  ("from", .string d.sender.text), ("to", .string d.recipient.text), ("input", .string (Hex.text d.input)),
  ("value", quantityJson d.value.toNat), ("nonce", quantityJson d.nonce.toNat)]

/-- The parameters of a request; a transaction is signed with a key. -/
def Call.parameters? (key : Nat) : Call → Option (List Json)
  | blockNumber => some []
  | block id => some [.string id.text, .bool false]
  | read contract input id =>
    some [.object [("to", .string contract.text), ("input", .string (Hex.text input))], .string id.text]
  | chainId => some []
  | transactionCount account => some [.string account.text, .string "pending"]
  | feeHistory => some [quantityJson 10, .string "latest", .array [.integer 20]]
  | estimateGas draft => some [draft.toJson, .string "pending"]
  | send transaction => (transaction.signed? key).map fun bs => [.string (Hex.text bs)]
  | receipt transaction => some [.string (Digest.text transaction)]

def Call.document? (c : Call) (key : Nat) : Option Json :=
  (c.parameters? key).map fun parameters => .object [("jsonrpc", .string "2.0"), ("id", .integer 0),
    ("method", .string c.method), ("params", .array parameters)]

def resultOf : Json → Except String Json
  | .object entries =>
    match entries.lookup "error", entries.lookup "result" with
    | some (.object fault), _ => .error (((fault.lookup "message").bind Json.string?).getD "refused")
    | _, some result => .ok result
    | _, none => .error "no result"
  | _ => .error "unexpected document"

def Call.isSettled : Call → Json → Bool
  | receipt _, .null => false
  | _, _ => true

end OracleDuty.Rpc
