import OracleDuty.Journal
/-!
The metrics that a journal amounts to: how often each thing was counted for each task, how often the
duration of a background execution was measured, and the index of the reward interval that was seen last.
-/
namespace OracleDuty

def Entry.task? : Entry → Option String
  | .count _ task => some task
  | .runTime task => some task
  | _ => none

def Entry.interval? : Entry → Option UInt64
  | .intervalIndex index => some index
  | _ => none

def Entry.isMeasurement (e : Entry) : Bool := e.task?.isSome || e.interval?.isSome

namespace Metrics

def tasks (journal : List Line) : List String := (journal.filterMap fun l => l.entry.task?).eraseDups

/-- How often an entry was written for each task; tasks without it are left out. -/
def series (journal : List Line) (entry : String → Entry) : List (String × Nat) :=
  ((tasks journal).map fun task => (task, journal.countP fun l => l.entry == entry task)).filter
    fun row => 0 < row.2

/-- The index that was seen last; it belongs to no task. -/
def gauge (journal : List Line) : List (String × Nat) :=
  ((journal.filterMap fun l => l.entry.interval?).getLast?.map fun i => ("", i.toNat)).toList

/-- Every metric with its values, by name. Metrics without values are left out. -/
def ofJournal (journal : List Line) : List (String × List (String × Nat)) :=
  (Counter.all.map (fun c => (c.name, series journal (.count c))) ++
    [("background_run_time", series journal .runTime), ("reward_interval", gauge journal)]).filter
    fun metric => !metric.2.isEmpty

end Metrics

end OracleDuty
