import OracleDuty.Execution.Envelope
import OracleDuty.Http.Message
import OracleDuty.Log.Moment
import OracleDuty.Metrics
import OracleDuty.Service
import Std.Async
/-!
The program on a real system: what the service asks for is carried out over sockets, files, timers and
signals, and lines go to the standard output. Connections are plain; metrics have no collector to go to.
-/
namespace OracleDuty.System

open Std.Async (Async AsyncTask Selectable Selector)

structure Host where
  output : Log.Output
  key : Nat
  timing : IO.Ref (Option Chain.Timing)
  measured : IO.Ref Bool
  lanes : IO.Ref Lanes
  failure : IO.Ref (Option String)
  stopping : Std.CancellationToken
  stopped : Std.CancellationToken

def perform {Q : Type} {A : Q → Type} {α : Type} (write : Line → Async Unit)
    (answer : (q : Q) → Async (A q)) : Program Q A α → Async α
  | .done a => pure a
  | .note line next => do
    write line
    perform write answer next
  | .ask q next => do
    let a ← answer q
    perform write answer (next a)

def pause (milliseconds : Nat) : Async Unit := Std.Async.sleep (.ofNat milliseconds)

namespace Host

def write (h : Host) (l : Line) : Async Unit := do
  if l.entry.isMeasurement then h.measured.set true
  let now := (← Std.Time.Timestamp.now).toMillisecondsSinceUnixEpoch
  if let some text := h.output.text? ⟨now.toInt.toNat⟩ l then
    IO.print text
    (← IO.getStdout).flush

/-! ### Files -/

def faultOf : IO.Error → Disk.Fault
  | .noFileOrDirectory .. => .notFound
  | .alreadyExists .. => .exists
  | .inappropriateType _ 20 _ => .notDirectory
  | .inappropriateType _ 21 _ => .isDirectory
  | e => .other (toString e)

def onDisk : (q : Disk.Request) → IO q.Result
  | .read path => return (← IO.FS.readBinFile path).toList
  | .createDirectories path => IO.FS.createDirAll path
  | .write path content => IO.FS.writeBinFile path ⟨content.toArray⟩
  | .rename source target => IO.FS.rename source target

/-! ### Connections -/

def addressOf (host : String) (port : UInt16) : Async (Option Std.Net.SocketAddress) := do
  match Std.Net.IPv4Addr.ofString host with
  | some a => return some (.v4 ⟨a, port⟩)
  | none =>
    let found ← Std.Async.DNS.getAddrInfo host (toString port)
    return found[0]?.map fun
      | .v4 a => .v4 ⟨a, port⟩
      | .v6 a => .v6 ⟨a, port⟩

partial def receive (socket : Std.Async.TCP.Socket.Client) (got : ByteArray) : Async ByteArray := do
  match ← socket.recv? 65536 with
  | some more => receive socket (got ++ more)
  | none => return got

def exchange (r : Http.Request) : Async (Except Http.Failure Http.Response) := do
  let refused (reason : String) : Except Http.Failure Http.Response := .error (.broken reason)
  if r.url.scheme != "http" then return refused "secure connections are not supported"
  try
    let host := (r.url.authority.map (·.host)).getD ""
    let some address ← addressOf host (.ofNat (r.url.portNumber.getD 80)) | return refused "unknown host"
    let socket ← Std.Async.TCP.Socket.Client.mk
    socket.connect address
    socket.sendAll #[⟨r.bytes.toArray⟩]
    match Http.Response.ofBytes? (← receive socket .empty).toList with
    | some response => return .ok response
    | none => return refused "incomplete response"
  catch e => return refused (toString e)

partial def rpc (h : Host) (endpoint : Url) (c : Rpc.Call) : Async (Except String Json) := do
  let some document := c.document? h.key | return .error "the transaction cannot be signed"
  let headers := [("content-type", "application/json")]
  match ← exchange ⟨.post, endpoint, headers, Bytes.ofString document.render⟩ with
  | .error failure => return .error failure.message
  | .ok response =>
    match (response.json?.map Rpc.resultOf).getD (.error "unexpected document") with
    | .error reason => return .error reason
    | .ok result =>
      if c.isSettled result then return .ok result
      pause 7000
      rpc h endpoint c

def answer (h : Host) : (q : Wire.Request) → Async (Wire.Answer q)
  | .http request => exchange request
  | .rpc endpoint call => h.rpc endpoint call
  | .keptTiming => h.timing.get
  | .keepTiming timing => h.timing.modifyGet fun kept =>
      let timing := Wire.keep kept timing
      (timing, some timing)
  | .disk request => do
    try return .ok (← onDisk request)
    catch e => return .error (faultOf e)
  | .flushMetrics _ => do
    if ← h.measured.get then return .error "the collector cannot be reached" else return .ok ()

/-! ### The controller -/

def background (h : Host) (span : Log.SpanFields) (b : Background Wire.Request Wire.Answer) :
    Async Unit := do
  let outcome ← try pure (.completed (← perform h.write h.answer (b.work.run.within span)))
    catch e => pure (.panicked (some (toString e)))
  for entry in Lane.endEntries b.lane outcome do h.write ⟨[span], entry⟩
  h.lanes.modify (·.free b.lane)

def command (h : Host) :
    (c : Command Wire.Request Wire.Answer) → Async (Command.Answer c)
  | .ask q => h.answer q
  | .start span b => do
    let taken ← h.lanes.modifyGet fun lanes => lanes.take b.lane
    if taken then Std.Async.background (t := AsyncTask) (h.background span b)
    return taken

partial def tick (h : Host) (service : Service.Ready) (c : Controller) : Async Unit := do
  let start ← IO.monoMsNow
  let c ← perform h.write h.command (c.tick service.load service.tasks)
  let rest := start + 1000 * service.pollSeconds.toNat - (← IO.monoMsNow)
  let timer ← Selector.sleep (.ofNat rest)
  let goOn ← Selectable.one #[
    .case h.stopping.selector fun _ => pure false,
    .case timer fun _ => return !(← h.stopping.isCancelled)]
  if goOn then h.tick service c
  else perform h.write h.command Controller.logStop

def control (h : Host) (service : Service.Ready) : Async Unit := do
  try
    perform h.write h.command (Controller.logStart service.pollSeconds service.tasks)
    h.tick service .fresh
  catch e => h.failure.set (some ("Task controller panicked: " ++ toString e))
  h.stopped.cancel

/-! ### The service -/

def awaitSignal : Async Signal := do
  let terminate ← Std.Async.Signal.Waiter.mk .sigterm false
  let interrupt ← Std.Async.Signal.Waiter.mk .sigint false
  let quit ← Std.Async.Signal.Waiter.mk .sigquit false
  Selectable.one #[
    .case terminate.selector fun _ => pure .terminate,
    .case interrupt.selector fun _ => pure .interrupt,
    .case quit.selector fun _ => pure .quit]

def stop (h : Host) (seconds : UInt64) : Async Shutdown.Ending := do
  h.stopping.cancel
  let timer ← Selector.sleep (.ofNat (1000 * seconds.toNat))
  let ended ← Selectable.one #[
    .case h.stopped.selector fun _ => pure true,
    .case timer fun _ => pure false]
  if !ended then return .unfinished
  match ← h.failure.get with
  | some message => return .failed message
  | none => return .completed

def serve (h : Host) : (q : Service.Request) → Async (Service.Answer q)
  | .wire q => h.answer q
  | .engage service => Std.Async.background (t := AsyncTask) (h.control service)
  | .signal => awaitSignal
  | .stop seconds => h.stop seconds

end Host

def environment : IO Environment := do
  let file ← try IO.FS.readFile ".env" catch _ => pure ""
  let own := ["RUST_LOG", "LOG_FORMAT"] ++ CommandLine.specs.map (·.environmentName)
  let set ← (own ++ Environment.mentioned file).filterMapM fun name => do
    return (← IO.getEnv name).map fun value => (name, value)
  return (⟨set⟩ : Environment).load file

def run (args : List String) : IO UInt32 := do
  let environment ← System.environment
  let key ← match CommandLine.read environment.get? args with
    | .ok options => pure (((Digest.ofText? options.privateKey).map BitVec.toNat).getD 0)
    | .error fault =>
      if fault != .version then IO.eprintln CommandLine.usage
      pure 0
  let host : Host := {
    output := .ofEnvironment environment.get?, key
    timing := ← IO.mkRef none, measured := ← IO.mkRef false, lanes := ← IO.mkRef .empty
    failure := ← IO.mkRef none
    stopping := ← Std.CancellationToken.new, stopped := ← Std.CancellationToken.new }
  let code ← (perform host.write host.serve (Service.main environment args)).block
  return .ofNat code

end OracleDuty.System

def main (args : List String) : IO UInt32 := OracleDuty.System.run args
