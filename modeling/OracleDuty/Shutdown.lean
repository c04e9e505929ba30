import OracleDuty.Program
/-!
Shutting down: a signal ends the service, which gives the work in hand some time to come to an end.
-/
namespace OracleDuty

inductive Signal where
  | terminate
  | interrupt
  | quit
deriving DecidableEq

def Signal.name : Signal → String
  | terminate => "SIGTERM"
  | interrupt => "SIGINT"
  | quit => "SIGQUIT"

namespace Shutdown

variable {Q : Type} {A : Q → Type}

inductive Ending where
  | completed
  | failed (message : String)
  | unfinished
deriving DecidableEq

inductive Verdict where
  | done
  | failed (message : String)
  | abandoned
deriving DecidableEq

def listen : Program Q A Unit :=
  Program.log .shutdown .info
    "Signal handler initialized, listening for SIGTERM, SIGINT and SIGQUIT" []

def receive (s : Signal) : Program Q A Unit := do
  if s = .quit then Program.log .shutdown .warn "Force quit signal received (SIGQUIT)" []
  Program.log .shutdown .info "Received shutdown signal" [("signal", .shown s.name)]

/-- Written before the work in hand is waited for. Without a signal it counts as an interrupt. -/
def start (received : Option Signal) (seconds : UInt64) : Program Q A Unit :=
  Program.log .shutdown .info "Starting graceful shutdown"
    [("signal", .shown (received.getD .interrupt).name), ("timeout_secs", .unsigned seconds)]

/-- Draws the conclusion. Work that is unfinished fails the shutdown, and after a quit it is
abandoned. -/
def conclude (received : Option Signal) (seconds : UInt64) : Ending → Program Q A Verdict
  | .completed => do
    Program.log .shutdown .info "Graceful shutdown completed" []
    return .done
  | .failed message => do
    Program.log .shutdown .error "Graceful shutdown failed" [("error", .shown message)]
    return .failed message
  | .unfinished =>
    if received = some .quit then do
      Program.log .shutdown .warn "Shutdown timed out after SIGQUIT, exiting immediately"
        [("timeout_secs", .unsigned seconds)]
      return .abandoned
    else do
      Program.log .shutdown .warn "Shutdown timed out, in-flight submissions may be incomplete"
        [("timeout_secs", .unsigned seconds)]
      return .failed s!"Shutdown timeout of {seconds} seconds exceeded"

end Shutdown

end OracleDuty
