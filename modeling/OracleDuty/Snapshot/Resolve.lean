import OracleDuty.Duty.Action
/-!
Finding the blocks that a rewards snapshot is taken at: from the last slot of the snapshot's epoch back to
the first slot that holds a block.
-/
namespace OracleDuty.Snapshot

open Duty

structure Target where
  endTime : UInt64
  plan : Plan
  consensusBlock : UInt64
  executionBlock : UInt64
deriving DecidableEq

inductive Resolution where
  | ready (target : Target)
  | awaitingFinality (plan : Plan) (finalizedEpoch : UInt64)
deriving DecidableEq

/-- The block at `slot`, or at the nearest slot before it that holds one; at most `left` slots are
skipped. `first` is the slot that the walk began at. -/
def walk (first : UInt64) : (left : Nat) → (slot : UInt64) → Action Chain.Block
  | left, slot => do
    match ← ask (Program.request (Request.block slot)) with
    | some block =>
      Action.log .snapshot .debug "Found snapshot block"
        [("slot", .unsigned slot), ("execution_block", .unsigned block.executionBlock)]
      return block
    | none =>
      Action.log .snapshot .debug "Slot is empty, walking back" [("slot", .unsigned slot)]
      match left with
      | 0 => Action.fail (.snapshot (.noProposedBlock first slot))
      | left + 1 => walk first left (slot - 1)

/-- Resolves the snapshot for the end of an interval. No block is asked for before finality. -/
def resolve (endTime : UInt64) (timing : Chain.Timing) (finalizedEpoch maxWalkback : UInt64) :
    Action Resolution := do
  let plan ← Action.ofExcept .snapshot (Snapshot.plan endTime timing)
  if finalizedEpoch < plan.requiredFinalizedEpoch then
    Action.log .snapshot .info "Snapshot epoch is not finalized yet" [
      ("target_epoch", .unsigned plan.targetEpoch),
      ("required_finalized_epoch", .unsigned plan.requiredFinalizedEpoch),
      ("finalized_epoch", .unsigned finalizedEpoch)]
    return .awaitingFinality plan finalizedEpoch
  else
    let depth := min maxWalkback.toNat plan.targetSlot.toNat
    let block ← walk plan.targetSlot depth plan.targetSlot
    return .ready ⟨endTime, plan, block.slot, block.executionBlock⟩

end OracleDuty.Snapshot
