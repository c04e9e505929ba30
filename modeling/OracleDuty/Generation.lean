import OracleDuty.Http.Status
import OracleDuty.RewardsTree.Codec
/-!
What the generator of rewards trees is asked and what it replies. A request holds everything that the
tree is determined by.
-/
namespace OracleDuty.Generation

structure Request where
  network : String
  index : UInt64
  intervalsPassed : UInt64
  startTime : UInt64
  endTime : UInt64
  consensusBlock : UInt64
  executionBlock : UInt64
deriving DecidableEq

def Request.encode (r : Request) : String := Json.render (.object [
  ("network", .string r.network), ("index", .ofUInt64 r.index),
  ("intervalsPassed", .ofUInt64 r.intervalsPassed), ("startTime", .ofUInt64 r.startTime),
  ("endTime", .ofUInt64 r.endTime), ("consensusBlock", .ofUInt64 r.consensusBlock),
  ("executionBlock", .ofUInt64 r.executionBlock)])

structure Reply where
  tree : RewardsTree
  performance : Json

def Reply.ofJson? (j : Json) : Option Reply := do
  match ← Json.record? ["rewardsFile", "minipoolPerformanceFile"] j with
  | [some tree, some performance] =>
    guard (performance.sound (Json.maxDepth - 1))
    return ⟨← RewardsTree.ofJson? (Json.maxDepth - 1) tree, performance.canonical⟩
  | _ => none

inductive Error where
  | network (index : UInt64) (message : String)
  | refused (index : UInt64) (status : Http.Status) (message : String)
  | unreadable (index : UInt64) (message : String)
  | wrongInterval (expected actual : UInt64)
deriving DecidableEq

def Error.message : Error → String
  | network index message => s!"Network error while generating interval {index}: {message}"
  | refused index status message =>
    s!"Generator rejected interval {index} (status {status.text}): {message}"
  | unreadable index message =>
    s!"Failed to parse generated rewards for interval {index}: {message}"
  | wrongInterval expected actual =>
    s!"Generator returned interval {actual} for a request of interval {expected}"

def Reply.forInterval (index : UInt64) (r : Reply) : Except Error Reply :=
  if r.tree.header.index = index then .ok r
  else .error (.wrongInterval index r.tree.header.index)

end OracleDuty.Generation
