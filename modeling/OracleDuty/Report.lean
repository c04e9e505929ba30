import OracleDuty.Beacon.Error
import OracleDuty.Execution.Error
import OracleDuty.Generation
import OracleDuty.Interval
import OracleDuty.Log.Event
import OracleDuty.Price
import OracleDuty.Publication
import OracleDuty.Relay.Error
import OracleDuty.Snapshot.Plan
import OracleDuty.Store.Error
/-!
Reports of failure: a cause, with notes about what was being done when it struck.
-/
namespace OracleDuty

inductive Cause where
  | plain (text : String)
  | interval (e : Interval.Error)
  | snapshot (e : Snapshot.Error)
  | price (e : Price.Error)
  | relay (e : Relay.Error)
  | store (e : Store.Error)
  | generation (e : Generation.Error)
  | publication (e : Publication.Error)
  | beacon (e : Beacon.Error)
  | execution (e : Execution.Error)
deriving DecidableEq

def Cause.chain : Cause → List String
  | plain text => [text]
  | interval e => [e.message]
  | snapshot e => [e.message]
  | price e => [e.message]
  | relay e => [e.message]
  | store e => e.chain
  | generation e => [e.message]
  | publication e => [e.message]
  | beacon e => [e.message]
  | execution e => [e.message]

structure Report where
  notes : List String
  cause : Cause
deriving DecidableEq

namespace Report

def of (cause : Cause) : Report := ⟨[], cause⟩

def noting (note : String) (r : Report) : Report := { r with notes := note :: r.notes }

def chain (r : Report) : List String := r.notes ++ r.cause.chain

def text (r : Report) : String := r.chain.headD ""

def numbered (r : Report) : String :=
  String.join (r.chain.zipIdx.map fun (text, i) => s!"\n   {i}: {text}")

def fields (r : Report) : List (String × Log.Value) :=
  [("error", .shown r.text), ("error_chain", .shown r.numbered)]

end Report

end OracleDuty
