/-!
Reward intervals: how many have elapsed at a time, and the boundary that ended the last of them.
-/
namespace OracleDuty

structure Interval where
  index : UInt64
  startTime : UInt64
  duration : UInt64
deriving DecidableEq

namespace Interval

inductive Error where
  | zeroDuration
  | zeroInput (latest reference interval : UInt64)
  | referenceInFuture (latest reference : UInt64)
deriving DecidableEq

def Error.message : Error → String
  | zeroDuration => "Reward interval duration is zero"
  | zeroInput latest reference interval =>
    s!"Timestamps and interval must be non-zero (latest: {latest}, reference: {reference}, interval: {interval})"
  | referenceInFuture latest reference =>
    s!"Reference timestamp {reference} is after the latest timestamp {latest}"

/-- Whole intervals between `start` and `now`; none before the first has passed. -/
def elapsed (now start duration : UInt64) : Except Error UInt64 :=
  if duration = 0 then .error .zeroDuration
  else .ok ((if now < start then 0 else now - start) / duration)

/-- The latest boundary `reference + k * interval` that is not after `latest`. -/
def lastBoundary (latest reference interval : UInt64) : Except Error UInt64 :=
  if latest = 0 ∨ reference = 0 ∨ interval = 0 then .error (.zeroInput latest reference interval)
  else if latest < reference then .error (.referenceInFuture latest reference)
  else .ok (reference + (latest - reference) / interval * interval)

end OracleDuty.Interval
