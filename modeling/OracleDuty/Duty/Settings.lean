import OracleDuty.Params
import OracleDuty.Store
/-!
What the duties of a node are carried out with.
-/
namespace OracleDuty

structure Settings where
  node : Address
  store : Store
  treeMode : TreeMode
  fees : FeeCaps
  twapPool : Option Address
  messengers : List (Relay.Target × Address)
  /-- How many empty slots a snapshot may be moved back; by default those of an epoch. -/
  maxWalkback : Option UInt64
deriving DecidableEq

namespace Settings

def options (s : Settings) (value : Word) : TxOptions :=
  ⟨value, none, s.fees.maxFeePerGas, s.fees.maxPriorityFeePerGas⟩

end Settings

end OracleDuty
