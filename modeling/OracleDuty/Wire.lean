import OracleDuty.Chain
import OracleDuty.Disk
import OracleDuty.Execution.Rpc
import OracleDuty.Http
import OracleDuty.Program
/-!
What the clients of the chains and of the services need: requests over the network, the disk, and a place
that keeps the timing of the consensus chain once it is known.
-/
namespace OracleDuty.Wire

inductive Request where
  | http (request : Http.Request)
  | rpc (endpoint : Url) (call : Rpc.Call)
  | keptTiming
  | keepTiming (timing : Chain.Timing)
  | disk (request : Disk.Request)
  | flushMetrics (collector : Url)
deriving DecidableEq

abbrev Answer : Request → Type
  | .http _ => Except Http.Failure Http.Response
  | .rpc .. => Except String Json
  | .keptTiming => Option Chain.Timing
  | .keepTiming _ => Chain.Timing
  | .disk request => Except Disk.Fault request.Result
  | .flushMetrics _ => Except String Unit

abbrev Course (α : Type) := Program Request Answer α

abbrev Action (ε α : Type) := ExceptT ε (Program Request Answer) α

def ask {ε : Type} (q : Request) : Action ε (Answer q) :=
  ExceptT.lift (Program.request (A := Answer) q)

def attempt {δ ε α : Type} (cause : δ → ε) (course : Course (Except δ α)) : Action ε α :=
  ExceptT.adapt cause (ExceptT.mk course)

def log {ε : Type} (source : Log.Source) (level : Log.Level) (message : String)
    (fields : List (String × Log.Value)) : Action ε Unit :=
  ExceptT.lift (Program.log source level message fields)

/-- Sends an HTTP request; one that cannot be sent fails without reaching the network. -/
def send (r : Http.Request) : Course (Except Http.Failure Http.Response) :=
  if r.isSendable then Program.request (A := Answer) (.http r)
  else .done (.error (.broken "builder error"))

def keep (kept : Option Chain.Timing) (timing : Chain.Timing) : Chain.Timing := kept.getD timing

end OracleDuty.Wire
