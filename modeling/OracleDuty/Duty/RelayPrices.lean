import OracleDuty.Duty.Settings
import OracleDuty.NetworkState
/-!
Relaying prices: the network's price is pushed to every chain whose rate is out of date, by the member whose
turn it is. One chain that fails does not keep the others from being served.
-/
namespace OracleDuty.Duty.RelayPrices

def name : String := "relay_prices"

def suggestedFee : Action Wei :=
  (ask (Program.request Request.suggestedFee)).noting "Failed to estimate max fee"

def configuredFee (s : Settings) : Action Wei :=
  match s.fees.maxFeePerGas with
  | some fee => pure fee
  | none => suggestedFee

/-- The arguments of the messenger call for a target, and the value to attach. Retryable tickets are
always priced by the suggested fee. -/
def terms (s : Settings) : Relay.Target → Action (Relay.CallParams × Word)
  | .optimism => pure (.plain, 0)
  | .polygon => pure (.plain, 0)
  | .base => pure (.plain, 0)
  | .arbitrum => return Relay.arbitrumTicket (← suggestedFee)
  | .zkSyncEra => return Relay.zkSyncEraTransaction (← configuredFee s)

def relay (s : Settings) (target : Relay.Target) (messenger : Address) : Action Unit := do
  let (params, value) ← terms s target
  Action.log .relay .debug "Relaying prices"
    [("target", .shown target.name), ("value", .shown value.decimal)]
  let hash ← ask (Program.request (Request.submit (.submitRate target messenger params) (s.options value)))
  Action.count .submissions name
  Action.log .relay .info "Relayed prices"
    [("target", .shown target.name), ("tx_hash", .shown (Digest.text hash))]

def relayAll (s : Settings) :
    List (Relay.Target × Address) → Course (List (Relay.Target × String))
  | [] => return []
  | (target, messenger) :: rest => do
    match ← (relay s target messenger).run with
    | .ok () => relayAll s rest
    | .error report =>
      Program.log .relay .error "Failed to relay prices" (("target", .shown target.name) :: report.fields)
      let failures ← relayAll s rest
      return (target, report.text) :: failures

def staleMessengers (s : Settings) (state : NetworkState) : Action (List (Relay.Target × Address)) := do
  let flags ← (ask (Program.request (Request.stale s.messengers state.block))).noting
    "Failed to check messenger rates"
  if flags.length ≠ s.messengers.length then
    Action.fail (.relay (.flagCountMismatch s.messengers.length flags.length))
  else
    return ((s.messengers.zip flags).filter Prod.snd).map Prod.fst

def run (s : Settings) (state : NetworkState) : Action Unit := do
  if s.messengers.isEmpty then
    Action.log .relay .debug "No price messengers configured, returning safely." []
  else
    let stale ← staleMessengers s state
    if stale.isEmpty then
      Action.log .relay .debug "All relayed rates are current, returning safely." []
    else
      match Turn.indexOf? state.members s.node with
      | none => Action.log .relay .debug "Node is not an oracle member, returning safely." []
      | some index =>
        let count := UInt64.ofNat state.members.length
        if !Turn.isMine index state.block Turn.blocksPerTurn count then
          Action.log .relay .debug "Not this node's turn to relay, returning safely."
            [("block", .unsigned state.block), ("self_index", .unsigned index)]
        else
          Action.log .relay .info "Relaying stale prices"
            [("targets", .unsigned (UInt64.ofNat stale.length))]
          match ← ExceptT.lift (relayAll s stale) with
          | [] => return ()
          | failures => Action.fail (.relay (.partially failures))

end OracleDuty.Duty.RelayPrices
