import OracleDuty.Chain
import OracleDuty.Contract
import OracleDuty.Generation
import OracleDuty.Program
import OracleDuty.Report
import OracleDuty.Turn
/-!
What the duties ask of the outside world, and actions: programs over these requests that may fail with a
report.
-/
namespace OracleDuty

structure PriceSettings where
  enabled : Bool
  pricesBlock : UInt64
  latestReportableBlock : UInt64
deriving DecidableEq

namespace Duty

inductive Request where
  | timing
  | head
  | block (slot : UInt64)
  | latestBlock
  | blockTime (block : UInt64)
  | flag (key : Digest) (block : Option UInt64)
  | rewardInterval (block : UInt64)
  | priceSettings (block : UInt64)
  | members (block : UInt64)
  | observe (pool : Address) (secondsAgo : List UInt32) (block : UInt64)
  | stale (messengers : List (Relay.Target × Address)) (block : UInt64)
  | suggestedFee
  | submit (call : Call) (options : TxOptions)
  | upload (file : String) (content : Bytes)
  | generate (request : Generation.Request)
  | disk (request : Disk.Request)
deriving DecidableEq

abbrev Answer : Request → Type
  | .timing => Except Report Chain.Timing
  | .head => Except Report Chain.Head
  | .block _ => Except Report (Option Chain.Block)
  | .latestBlock => Except Report UInt64
  | .blockTime _ => Except Report UInt64
  | .flag .. => Except Report Bool
  | .rewardInterval _ => Except Report Interval
  | .priceSettings _ => Except Report PriceSettings
  | .members _ => Except Report (List Member)
  | .observe .. => Except Report (List Int64)
  | .stale .. => Except Report (List Bool)
  | .suggestedFee => Except Report Wei
  | .submit .. => Except Report Digest
  | .upload .. => Except Publication.Error String
  | .generate _ => Except Generation.Error Generation.Reply
  | .disk request => Except Disk.Fault request.Result

abbrev Course (α : Type) := Program Request Answer α

abbrev Action (α : Type) := ExceptT Report (Program Request Answer) α

namespace Action

variable {ε α : Type}

def withCause (cause : ε → Cause) (course : Course (Except ε α)) : Action α :=
  ExceptT.adapt (fun e => Report.of (cause e)) (ExceptT.mk course)

def noting (note : String) (action : Action α) : Action α :=
  ExceptT.adapt (Report.noting note) (ExceptT.mk action.run)

def fail (cause : Cause) : Action α := throw (Report.of cause)

def ofExcept (cause : ε → Cause) : Except ε α → Action α
  | .ok a => pure a
  | .error e => fail (cause e)

def log (source : Log.Source) (level : Log.Level) (message : String)
    (fields : List (String × Log.Value)) : Action Unit :=
  ExceptT.lift (Program.log source level message fields)

def count (counter : Counter) (task : String) : Action Unit :=
  ExceptT.lift (Program.write (.count counter task))

end Action

def ask {α : Type} (course : Course (Except Report α)) : Action α := ExceptT.mk course

end Duty

end OracleDuty
