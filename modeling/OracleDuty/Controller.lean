import OracleDuty.Background
import OracleDuty.NetworkState
/-!
The controller reads the chains again and again, and runs every task once for each new execution block.
-/
namespace OracleDuty

/-- A task: what it does in one round, and the background work that this calls for. -/
structure Task (Q : Type) (A : Q → Type) where
  name : String
  run : NetworkState → ExceptT Report (Program Q A) (Option (Background Q A))

def Task.serve {Q W : Type} {A : Q → Type} {B : W → Type} (f : (q : Q) → Program W B (A q))
    (t : Task Q A) : Task W B where
  name := t.name
  run state := ExceptT.mk do
    return (← (t.run state).run.serve f).map fun b => b.map (Background.serve f)

/-- The controller remembers the last block that its tasks were run for. -/
structure Controller where
  lastBlock : Option UInt64
deriving DecidableEq

namespace Controller

variable {Q : Type} {A : Q → Type} {α : Type}

def fresh : Controller := ⟨none⟩

def span (task : String) (block : UInt64) : Log.SpanFields :=
  .ofFields [("task", .text task), ("block", .unsigned block)]

def asForeground (p : Program Q A α) : Foreground Q A α :=
  p.serve fun q => Program.request (Command.ask q)

def start (span : Log.SpanFields) (b : Background Q A) : Foreground Q A Unit := do
  let accepted ← Program.request (A := Command.Answer) (Command.start span b)
  if !accepted then (Program.write (Lane.refusal b.lane)).within span

def launch (t : Task Q A) (span : Log.SpanFields) (state : NetworkState) :
    Foreground Q A (Except Report Unit) := do
  match ← (asForeground (t.run state).run).within span with
  | .error report => return .error report
  | .ok none => return .ok ()
  | .ok (some b) =>
    start span b
    return .ok ()

def runTask (state : NetworkState) (t : Task Q A) : Foreground Q A Unit := do
  Program.write (.count .taskRuns t.name)
  match ← launch t (span t.name state.block) state with
  | .ok () => return ()
  | .error report =>
    Program.log .controller .error "Task failed" (("task", .text t.name) :: report.fields)
    Program.write (.count .failedTaskRuns t.name)

def runTasks (state : NetworkState) : List (Task Q A) → Foreground Q A Unit
  | [] => return ()
  | t :: rest => do
    runTask state t
    runTasks state rest

/-- Whether a block is later than every block that tasks were run for. -/
def isNew (c : Controller) (block : UInt64) : Bool :=
  match c.lastBlock with
  | none => true
  | some last => last < block

def tick (load : ExceptT Report (Program Q A) NetworkState) (tasks : List (Task Q A))
    (c : Controller) : Foreground Q A Controller := do
  match ← asForeground load.run with
  | .error report =>
    Program.log .controller .error "Failed to load network state" report.fields
    return c
  | .ok state =>
    if c.isNew state.block then
      Program.write (.intervalIndex state.interval.index)
      runTasks state tasks
      return ⟨some state.block⟩
    else
      Program.log .controller .debug "No new execution block" [("block", .unsigned state.block)]
      return c

def ticks (load : ExceptT Report (Program Q A) NetworkState) (tasks : List (Task Q A)) :
    (count : Nat) → Controller → Foreground Q A Controller
  | 0, c => return c
  | count + 1, c => do ticks load tasks count (← tick load tasks c)

def logStart (pollSeconds : UInt64) (tasks : List (Task Q A)) : Foreground Q A Unit :=
  Program.log .controller .info "Starting task controller" [
    ("poll_interval_secs", .unsigned pollSeconds),
    ("tasks", .unsigned (UInt64.ofNat tasks.length))]

def logStop : Foreground Q A Unit := do
  Program.log .controller .info "Task controller received shutdown signal" []
  Program.log .controller .info "Task controller stopped" []

end Controller

end OracleDuty
