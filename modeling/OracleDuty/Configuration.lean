import OracleDuty.Account
import OracleDuty.Clients
import OracleDuty.CommandLine
import OracleDuty.Duty.Settings
/-!
The configuration of a node: the options of the command line with all that is checked beyond their form.
-/
namespace OracleDuty

structure Configuration where
  options : CommandLine.Options
  fees : FeeCaps
  twapPool : Option Address
  messengers : List (Relay.Target × Address)
  registry : Address
  serviceName : String

namespace Configuration

def ofOptions (o : CommandLine.Options) : Except Params.Error Configuration := do
  let fees ← Params.feeCaps o.maxFeeGwei o.maxPriorityFeeGwei
  let twapPool ← Params.twapPool o.poolAddress
  let messengers ← Params.messengers o.messengerAddress
  let registry ← Params.storageAddress o.storageAddress
  let serviceName ← Params.serviceName o.serviceName
  return ⟨o, fees, twapPool, messengers, registry, serviceName⟩

def account (c : Configuration) : Except Execution.Error Address :=
  match Account.ofText? c.options.privateKey with
  | some a => .ok a
  | none => .error (.invalidPrivateKey "not a private key")

def settings (c : Configuration) (account : Address) : Settings where
  node := account
  store := ⟨c.options.directory, c.options.network⟩
  treeMode := c.options.treeMode
  fees := c.fees
  twapPool := c.twapPool
  messengers := c.messengers
  maxWalkback := c.options.maxWalkback

def clients (c : Configuration) (account : Address) : Clients where
  beacon := ⟨c.options.beaconUrl⟩
  execution := ⟨c.options.rpcUrl, account, c.registry⟩
  generator := ⟨c.options.generatorUrl⟩
  publisher := ⟨c.options.publisherUrl, c.options.publisherToken⟩

end Configuration

end OracleDuty
