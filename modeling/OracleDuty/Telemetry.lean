import OracleDuty.Wire
/-!
The export of metrics to a collector: it is skipped where no collector is configured, and it is shut down
once.
-/
namespace OracleDuty.Telemetry

inductive Error where
  | badEndpoint (endpoint : String)
  | unsent (reason : String)
  | alreadyShutDown
deriving DecidableEq

def Error.message : Error → String
  | badEndpoint endpoint => s!"OTEL Exporter Build Error: invalid URI {endpoint}"
  | unsent reason => s!"OTEL SDK Error: {reason}"
  | alreadyShutDown => "OTEL SDK Error: Shutdown already invoked"

inductive Exporter where
  | absent
  | running (collector : Url)
  | shutDown
deriving DecidableEq

def afterAt (cs : List Char) : List Char := (cs.reverse.takeWhile (· != '@')).reverse

/-- Whether a locator can be connected to: it has an authority, or all of it reads as one, a host with at
most one colon. -/
def isEndpoint (u : Url) : Bool :=
  match u.authority, u.path with
  | some a, _ => !a.text.isEmpty
  | none, .segments _ => false
  | none, .plain text =>
    let host := afterAt (u.scheme ++ ":" ++ text).toList
    u.query.isNone && u.fragment.isNone && !text.contains '/' && !host.isEmpty &&
      (host.filter (· == ':')).length ≤ 1

def start (collector : Option Url) : Wire.Action Error Exporter := do
  match collector with
  | none =>
    Wire.log .metrics .warn "OTEL endpoint is not set. Skipping instrumentation." []
    return .absent
  | some url =>
    if !isEndpoint url then throw (.badEndpoint url.text)
    Wire.log .metrics .info "OpenTelemetry metrics exporter initialized"
      [("endpoint", .shown url.text)]
    return .running url

/-- Shuts an exporter down. What it is afterwards does not depend on success. -/
def Exporter.stop (e : Exporter) : Wire.Course (Except Error Unit × Exporter) := do
  match e with
  | absent =>
    Program.log .metrics .warn "OTEL endpoint is not set. Skipping shutdown." []
    return (.ok (), absent)
  | shutDown => return (.error .alreadyShutDown, shutDown)
  | running collector =>
    let sent ← Program.request (A := Wire.Answer) (.flushMetrics collector)
    return (sent.mapError .unsent, shutDown)

end OracleDuty.Telemetry
