import OracleDuty.Chain
/-!
The point of the consensus chain that a rewards snapshot is taken at: the last slot of the epoch that
contains the end of the interval.
-/
namespace OracleDuty.Snapshot

inductive Error where
  | zeroSecondsPerSlot
  | zeroSlotsPerEpoch
  | epochOverflows (epoch : UInt64)
  | endBeforeGenesis (endTime genesisTime : UInt64)
  | noProposedBlock (fromSlot toSlot : UInt64)
deriving DecidableEq

def Error.message : Error → String
  | zeroSecondsPerSlot => "Malformed chain parameters: seconds per slot is zero"
  | zeroSlotsPerEpoch => "Malformed chain parameters: slots per epoch is zero"
  | epochOverflows epoch => s!"Malformed chain parameters: epoch {epoch} overflows"
  | endBeforeGenesis endTime genesisTime =>
    s!"Interval end time {endTime} is before genesis {genesisTime}"
  | noProposedBlock fromSlot toSlot =>
    s!"No proposed block found between slots {toSlot} and {fromSlot}"

structure Plan where
  targetSlot : UInt64
  targetEpoch : UInt64
  requiredFinalizedEpoch : UInt64
deriving DecidableEq

def divCeil (a b : UInt64) : UInt64 := if a % b = 0 then a / b else a / b + 1

/-- The epoch of the first slot that does not start before `endTime`, and its last slot. -/
def plan (endTime : UInt64) (t : Chain.Timing) : Except Error Plan :=
  if t.secondsPerSlot = 0 then .error .zeroSecondsPerSlot
  else if t.slotsPerEpoch = 0 then .error .zeroSlotsPerEpoch
  else if endTime < t.genesisTime then .error (.endBeforeGenesis endTime t.genesisTime)
  else
    let slot := divCeil (endTime - t.genesisTime) t.secondsPerSlot
    let epoch := slot / t.slotsPerEpoch
    let next := (epoch.toNat + 1) * t.slotsPerEpoch.toNat
    if next < UInt64.size then .ok ⟨UInt64.ofNat next - 1, epoch, epoch + 1⟩
    else .error (.epochOverflows epoch)

end OracleDuty.Snapshot
