import OracleDuty.Program
import OracleDuty.Report
/-!
Lanes for background executions: each lane is named for a task and holds one execution at a time. A trigger
while one is in flight is refused, and an execution frees its lane however it ends.
-/
namespace OracleDuty

inductive Outcome where
  | completed (result : Except Report Unit)
  | panicked (reason : Option String)

namespace Outcome

def failure? : Outcome → Option Report
  | completed (.ok ()) => none
  | completed (.error report) => some report
  | panicked reason =>
    some (.of (.plain ("Background execution panicked: " ++ reason.getD "unknown panic")))

def isSuccess : Outcome → Bool
  | completed (.ok ()) => true
  | _ => false

end Outcome

structure Lanes where
  inFlight : List String
deriving DecidableEq

namespace Lanes

def empty : Lanes := ⟨[]⟩

def isTaken (l : Lanes) (lane : String) : Bool := l.inFlight.contains lane

def take (l : Lanes) (lane : String) : Bool × Lanes :=
  if l.isTaken lane then (false, l) else (true, ⟨lane :: l.inFlight⟩)

def free (l : Lanes) (lane : String) : Lanes := ⟨l.inFlight.filter (· ≠ lane)⟩

/-- Freeing a lane concerns that lane only. -/
theorem isTaken_free (l : Lanes) (lane other : String) :
    (l.free lane).isTaken other = (l.isTaken other && other != lane) := by
  simp only [free, isTaken, List.contains_eq_mem, List.mem_filter, Bool.decide_and]
  by_cases h : other = lane <;> simp [h]

end Lanes

namespace Lane

def refusal (lane : String) : Entry :=
  .event (Log.event .lane .info "Background execution already in progress, skipping"
    [("task", .text lane)])

def failureEntries (lane : String) (report : Report) : List Entry := [
  .event (Log.event .lane .error "Background execution failed" (("task", .text lane) :: report.fields)),
  .count .backgroundFailures lane]

def finishEntries (lane : String) (failure : Option Report) : List Entry :=
  match failure with
  | none => []
  | some report => failureEntries lane report

def endEntries (lane : String) (outcome : Outcome) : List Entry :=
  .runTime lane :: finishEntries lane outcome.failure?

end Lane

end OracleDuty
