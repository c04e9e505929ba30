import OracleDuty.Configuration
import OracleDuty.Duty.Round
import OracleDuty.Environment
import OracleDuty.Log.Filter
import OracleDuty.Shutdown
import OracleDuty.Telemetry
/-!
The whole program: it reads its options, prepares its clients, sets the controller to work, and waits for a
signal. What it asks of the system around it are requests again.
-/
namespace OracleDuty.Service

inductive Error where
  | parameters (e : Params.Error)
  | execution (e : Execution.Error)
  | telemetry (e : Telemetry.Error)
  | shutdown (message : String)

def Error.message : Error → String
  | parameters e => e.message
  | execution e => "Ethereum client error: " ++ e.message
  | telemetry e => e.message
  | shutdown message => "Watchtower Error: " ++ message

structure Ready where
  settings : Settings
  clients : Clients
  exporter : Telemetry.Exporter
  pollSeconds : UInt64
  shutdownSeconds : UInt64

def Ready.load (r : Ready) : ExceptT Report (Program Wire.Request Wire.Answer) NetworkState :=
  ExceptT.mk (NetworkState.load.run.serve r.clients.serve)

def Ready.tasks (r : Ready) : List (Task Wire.Request Wire.Answer) :=
  (Duty.tasks r.settings).map (Task.serve r.clients.serve)

inductive Request where
  | wire (q : Wire.Request)
  | engage (service : Ready)
  | signal
  | stop (seconds : UInt64)

abbrev Answer : Request → Type
  | .wire q => Wire.Answer q
  | .engage _ => Unit
  | .signal => Signal
  | .stop _ => Shutdown.Ending

abbrev Action (α : Type) := ExceptT Error (Program Request Answer) α

def ofWire {α : Type} (p : Wire.Course α) : Program Request Answer α :=
  p.serve fun q => Program.request (A := Answer) (.wire q)

def prepare (o : CommandLine.Options) : Action Ready := do
  let exporter ← ExceptT.adapt Error.telemetry (ExceptT.mk (ofWire (Telemetry.start o.collector).run))
  let c ← ExceptT.adapt Error.parameters (ExceptT.mk (pure (Configuration.ofOptions o)))
  let account ← ExceptT.adapt Error.execution (ExceptT.mk (pure c.account))
  ExceptT.lift (Program.log .service .debug "Configuration initialized"
    [("node_address", .shown (Account.checksummed account))])
  return ⟨c.settings account, c.clients account, exporter, o.pollSeconds, o.shutdownSeconds⟩

/-- Shuts the service down after a signal; whether it may still say farewell. -/
def finish (r : Ready) (received : Signal) : Action Bool := do
  ExceptT.lift (Shutdown.start (some received) r.shutdownSeconds)
  let ending ← ExceptT.lift (Program.request (A := Answer) (.stop r.shutdownSeconds))
  match ← ExceptT.lift (Shutdown.conclude (some received) r.shutdownSeconds ending) with
  | .abandoned => return false
  | .failed message => throw (.shutdown message)
  | .done =>
    let (stopped, _) ← ExceptT.lift (ofWire r.exporter.stop)
    ExceptT.adapt Error.telemetry (ExceptT.mk (pure stopped))
    ExceptT.lift (Program.log .service .info "Watchtower service shutting down" [])
    return true

def run (o : CommandLine.Options) : Action Bool := do
  let r ← prepare o
  ExceptT.lift (Program.request (A := Answer) (.engage r))
  ExceptT.lift Shutdown.listen
  let s ← ExceptT.lift (Program.request (A := Answer) .signal)
  ExceptT.lift (Shutdown.receive s)
  finish r s

/-- The program from its arguments; the answer is the exit code. -/
def main (environment : Environment) (args : List String) : Program Request Answer Nat := do
  Program.log .service .info "Starting watchtower" []
  match CommandLine.read environment.get? args with
  | .error fault => return if fault.isRequest then 0 else 2
  | .ok o =>
    match ← (run o).run with
    | .ok true =>
      Program.log .service .info "Watchtower stopped" []
      return 0
    | .ok false => return 1
    | .error e =>
      Program.log .service .error "Watchtower service failed"
        [("error", .shown e.message), ("error_chain", .shown e.message)]
      return 1

/-! ### The service at work -/

structure Running (σ : Type) where
  engine : Engine σ Wire.Request Wire.Answer
  tick : Stage (Command Wire.Request Wire.Answer) Command.Answer Controller

namespace Running

variable {σ : Type}

def idle (world : σ) : Running σ := ⟨Engine.idle world, .finished .fresh⟩

def follow (w : World σ Wire.Request Wire.Answer)
    (next : Controller → Foreground Wire.Request Wire.Answer Controller) (r : Running σ) :
    Running σ :=
  match r.tick with
  | .finished c =>
    let (tick, engine) := (next c).advance (Engine.foreground w) r.engine
    ⟨engine, tick⟩
  | _ => r

/-- The controller starts and ticks for the first time; its background executions go as far as they
can. -/
def engage (w : World σ Wire.Request Wire.Answer) (service : Ready) (r : Running σ) : Running σ :=
  let r := r.follow w fun c => do
    Controller.logStart service.pollSeconds service.tasks
    c.tick service.load service.tasks
  { r with engine := r.engine.proceedAll w fun _ => false }

def stop (w : World σ Wire.Request Wire.Answer) (r : Running σ) : Shutdown.Ending × Running σ :=
  match r.tick with
  | .finished _ => (.completed, r.follow w fun c => do Controller.logStop; return c)
  | .held .. => (.unfinished, r)
  | .panicked reason =>
    (.failed ("Task controller panicked: " ++ reason.getD "unknown panic"), r)

end Running

def world {σ : Type} (w : World σ Wire.Request Wire.Answer) (s : Signal) :
    World (Running σ) Request Answer where
  write line r := { r with engine := { r.engine with world := w.write line r.engine.world } }
  accept
    | .wire q, r =>
      let (now, world) := w.accept q r.engine.world
      (now, { r with engine := { r.engine with world } })
    | _, r => (true, r)
  answer
    | .wire q, r =>
      let (reply, world) := w.answer q r.engine.world
      (reply, { r with engine := { r.engine with world } })
    | .engage service, r => (.answer (), r.engage w service)
    | .signal, r => (.answer s, r)
    | .stop _, r =>
      let (ending, r) := r.stop w
      (.answer ending, r)

end OracleDuty.Service
