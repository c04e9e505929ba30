import OracleDuty.Beacon.Node
import OracleDuty.Execution.Node
import OracleDuty.Generation.Service
import OracleDuty.Publication.Service
/-!
The clients of a node together: they serve what the duties ask.
-/
namespace OracleDuty

structure Clients where
  beacon : Beacon.Node
  execution : Execution.Node
  generator : Generation.Service
  publisher : Publication.Service
deriving DecidableEq

namespace Clients

def ofBeacon {α : Type} (a : Wire.Action Beacon.Error α) : Wire.Course (Except Report α) :=
  (ExceptT.adapt (fun e => Report.of (.beacon e)) a).run

def ofExecution {α : Type} (a : Wire.Action Execution.Error α) : Wire.Course (Except Report α) :=
  (ExceptT.adapt (fun e => Report.of (.execution e)) a).run

def serve (c : Clients) : (q : Duty.Request) → Wire.Course (Duty.Answer q)
  | .timing => ofBeacon c.beacon.timing
  | .head => ofBeacon c.beacon.head
  | .block slot => ofBeacon (c.beacon.block slot)
  | .latestBlock => ofExecution c.execution.latestBlock
  | .blockTime block => ofExecution (Rpc.Header.timestamp <$> c.execution.header block)
  | .flag key block => ofExecution (c.execution.flag key block)
  | .rewardInterval block => ofExecution (c.execution.rewardInterval block)
  | .priceSettings block => ofExecution (c.execution.priceSettings block)
  | .members block => ofExecution (c.execution.members block)
  | .observe pool seconds block => ofExecution (c.execution.observe pool seconds block)
  | .stale messengers block => ofExecution (c.execution.stale messengers block)
  | .suggestedFee => ofExecution c.execution.suggestedFee
  | .submit call options => ofExecution (c.execution.submit call options)
  | .upload file content => (c.publisher.upload file content).run
  | .generate request => (c.generator.generate request).run
  | .disk request => Program.request (A := Wire.Answer) (.disk request)

end Clients

end OracleDuty
