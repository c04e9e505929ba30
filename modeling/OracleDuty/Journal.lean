import OracleDuty.Log.Event
/-!
What the program writes down while it works: log events, counts, and measurements. A line of the journal
is an entry with the spans it was written in.
-/
namespace OracleDuty

inductive Counter where
  | taskRuns
  | failedTaskRuns
  | backgroundFailures
  | submissions
  | skippedDuplicates
deriving DecidableEq

namespace Counter

def all : List Counter :=
  [taskRuns, failedTaskRuns, backgroundFailures, submissions, skippedDuplicates]

def name : Counter → String
  | taskRuns => "task_runs"
  | failedTaskRuns => "failed_task_runs"
  | backgroundFailures => "background_failures"
  | submissions => "submissions"
  | skippedDuplicates => "skipped_duplicate_submissions"

end Counter

inductive Entry where
  | event (e : Log.Event)
  | count (counter : Counter) (task : String)
  | runTime (task : String)
  | intervalIndex (index : UInt64)
deriving DecidableEq

structure Line where
  spans : List Log.SpanFields
  entry : Entry
deriving DecidableEq

namespace Line

def within (span : Log.SpanFields) (l : Line) : Line := { l with spans := span :: l.spans }

def event? (l : Line) : Option Log.Event :=
  match l.entry with
  | .event e => some e
  | _ => none

def counts (counter : Counter) (task : String) (l : Line) : Bool := l.entry == .count counter task

end Line

def tally (journal : List Line) (counter : Counter) (task : String) : Nat :=
  journal.countP (Line.counts counter task)

theorem tally_append (l m : List Line) (counter : Counter) (task : String) :
    tally (l ++ m) counter task = tally l counter task + tally m counter task :=
  List.countP_append

theorem Line.counts_count (spans : List Log.SpanFields) (counter counter' : Counter) (task task' : String) :
    Line.counts counter task ⟨spans, .count counter' task'⟩ = (counter' == counter && task' == task) := by
  rw [Bool.eq_iff_iff]
  simp [Line.counts]

end OracleDuty
