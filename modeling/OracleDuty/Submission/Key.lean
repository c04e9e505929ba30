import OracleDuty.Keccak
/-!
Storage keys of the flags that record submissions, and of the addresses of protocol contracts.
-/
namespace OracleDuty

inductive Submission.Purpose where
  | rewardsSnapshot
  | prices
deriving DecidableEq

namespace Submission

def Purpose.tag : Purpose → String
  | rewardsSnapshot => "rewards.snapshot.submitted.node"
  | prices => "network.prices.submitted.node.key"

/-- The bytes that a submission key is the hash of: tag, address, subject and, if there is one, the
value. -/
def preimage (purpose : Purpose) (address : Address) (subject : Word) (value : Option Word) : Bytes :=
  Bytes.ofString purpose.tag ++ address.bytes ++ subject.bytes ++ (value.map Word.bytes).getD []

def key (purpose : Purpose) (address : Address) (subject : Word) (value : Option Word) : Digest :=
  Keccak.digest (preimage purpose address subject value)

end Submission

namespace Registry

/-- The bytes that the key of a contract's address is the hash of. -/
def preimage (name : String) : Bytes := Bytes.ofString "contract.address" ++ Bytes.ofString name

def key (name : String) : Digest := Keccak.digest (preimage name)

end OracleDuty.Registry
