import OracleDuty.Duty.Action
/-!
The view of both chains that the tasks of one round act on: everything is read at one execution block.
-/
namespace OracleDuty

structure NetworkState where
  block : UInt64
  slot : UInt64
  timing : Chain.Timing
  interval : Interval
  prices : PriceSettings
  members : List Member
deriving DecidableEq

namespace NetworkState

def isMember (s : NetworkState) (address : Address) : Bool :=
  s.members.any fun m => m.address == address

open Duty

def contracts (block : UInt64) : Action (Interval × PriceSettings × List Member) := do
  let interval ← ask (Program.request (Request.rewardInterval block))
  let prices ← ask (Program.request (Request.priceSettings block))
  let members ← ask (Program.request (Request.members block))
  return (interval, prices, members)

def load : Action NetworkState := do
  let timing ← (ask (Program.request Request.timing)).noting "Failed to get beacon config"
  let head ← (ask (Program.request Request.head)).noting "Failed to get beacon head"
  let block ← (ask (Program.request Request.latestBlock)).noting "Failed to get latest block number"
  let (interval, prices, members) ←
    (contracts block).noting s!"Failed to read network contracts at block {block}"
  Action.log .state .debug "Loaded network state" [
    ("el_block_number", .unsigned block), ("beacon_slot", .unsigned head.slot),
    ("reward_index", .unsigned interval.index),
    ("oracle_members", .unsigned (UInt64.ofNat members.length))]
  return ⟨block, head.slot, timing, interval, prices, members⟩

end NetworkState

end OracleDuty
