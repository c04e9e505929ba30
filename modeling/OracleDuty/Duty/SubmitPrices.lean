import OracleDuty.Account
import OracleDuty.Background
import OracleDuty.Duty.Settings
import OracleDuty.Ledger
import OracleDuty.NetworkState
/-!
Reporting prices: a member reports the average price for the latest reportable block, once the block is
finalized. The checks are made in the foreground; the observation and the submission go on in the
background.
-/
namespace OracleDuty.Duty.SubmitPrices

def name : String := "submit_prices"

def timingText (t : Chain.Timing) : String :=
  "BeaconConfig \x7b " ++ s!"genesis_time: {t.genesisTime}, seconds_per_slot: {t.secondsPerSlot}, " ++
    s!"slots_per_epoch: {t.slotsPerEpoch}" ++ " \x7d"

def epochAt (time : UInt64) (t : Chain.Timing) : Action UInt64 :=
  if t.wellFormed then pure (t.epochAt time)
  else Action.fail (.plain s!"Malformed beacon config: {timingText t}")

structure Job where
  block : UInt64
deriving DecidableEq

namespace Job

def price (s : Settings) (j : Job) : Action Word := do
  match s.twapPool with
  | none => Action.fail (.plain "TWAP pool address is not configured")
  | some pool =>
    let cumulatives ← (ask (Program.request (Request.observe pool [Price.window, 0] j.block))).noting
      s!"Failed to observe pool {Account.checksummed pool} at block {j.block}"
    return Price.ofTick (← Action.ofExcept .price (Price.averageTick cumulatives Price.window))

/-- Observes the price and submits it, unless the same price is recorded already. A record of another
price for the block is no hindrance. -/
def execute (s : Settings) (j : Job) : Action Unit := do
  let block := ("block_number", Log.Value.unsigned j.block)
  let price ← j.price s
  Action.log .prices .info "Computed RPL price" [block, ("rpl_price", .shown price.decimal)]
  let subject : Word := RewardsTree.word j.block
  if ← Ledger.hasSubmitted .prices s.node subject (some price) then
    Action.log .prices .info "Prices for this block were already submitted" [block]
    Action.count .skippedDuplicates name
  else
    if ← Ledger.hasSubmitted .prices s.node subject none then
      Action.log .prices .warn
        "Previously submitted out-of-date prices for this block, trying again" [block]
    let hash ← (ask (Program.request
      (Request.submit (.submitPrices subject price) (s.options 0)))).noting
      s!"Failed to submit prices for block {j.block}"
    Action.count .submissions name
    Action.log .prices .info "Submitted RPL price" [block, ("tx_hash", .shown (Digest.text hash))]

end Job

def launch (s : Settings) (state : NetworkState) : Action (Option Job) := do
  let block := state.prices.latestReportableBlock
  if !state.prices.enabled then
    Action.log .prices .debug "Price submission is disabled, returning safely." []
    return none
  else if !state.isMember s.node then
    Action.log .prices .debug "Node is not an oracle member, returning safely." []
    return none
  else if block ≤ state.prices.pricesBlock then
    Action.log .prices .debug "Prices are up to date, returning safely."
      [("block_number", .unsigned block), ("prices_block", .unsigned state.prices.pricesBlock)]
    return none
  else
    let time ← (ask (Program.request (Request.blockTime block))).noting
      s!"Failed to get header of block {block}"
    let epoch ← epochAt time state.timing
    let head ← (ask (Program.request Request.head)).noting "Failed to get beacon head"
    if head.finalizedEpoch < epoch then
      Action.log .prices .info "Prices block has not been finalized yet, waiting." [
        ("block_number", .unsigned block), ("epoch", .unsigned epoch),
        ("finalized_epoch", .unsigned head.finalizedEpoch)]
      return none
    else return some ⟨block⟩

def run (s : Settings) (state : NetworkState) : Action (Option (Background Request Answer)) := do
  return (← launch s state).map fun job => ⟨name, job.execute s⟩

end OracleDuty.Duty.SubmitPrices
