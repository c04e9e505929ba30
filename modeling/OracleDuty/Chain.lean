/-!
The consensus chain as the duties see it: slot timing, the head, and proposed blocks.
-/
namespace OracleDuty.Chain

/-- Slot timing of the consensus chain. Times are in seconds. -/
structure Timing where
  genesisTime : UInt64
  secondsPerSlot : UInt64
  slotsPerEpoch : UInt64
deriving DecidableEq

/-- The time at which `slot` starts; a time past the last 64-bit number is taken as that number. -/
def Timing.slotTime (t : Timing) (slot : UInt64) : UInt64 :=
  UInt64.ofNat (min (t.genesisTime.toNat + t.secondsPerSlot.toNat * slot.toNat) (UInt64.size - 1))

def Timing.wellFormed (t : Timing) : Bool := t.secondsPerSlot != 0 && t.slotsPerEpoch != 0

/-- The epoch that contains `time`; times before genesis lie in the first one. Needs positive
lengths. -/
def Timing.epochAt (t : Timing) (time : UInt64) : UInt64 :=
  let elapsed := if time < t.genesisTime then 0 else time - t.genesisTime
  elapsed / t.secondsPerSlot / t.slotsPerEpoch

structure Head where
  slot : UInt64
  epoch : UInt64
  finalizedEpoch : UInt64
deriving DecidableEq

structure Block where
  slot : UInt64
  executionBlock : UInt64
deriving DecidableEq

end OracleDuty.Chain
