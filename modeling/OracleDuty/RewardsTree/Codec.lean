import OracleDuty.Json.Printer
import OracleDuty.Json.Reader
import OracleDuty.Json.Record
import OracleDuty.RewardsTree
/-!
The file format of rewards trees: one JSON object with the fields of the header and the nodes' rewards
side by side. Amounts are decimal texts, maps are objects in the order of their keys.
-/
namespace OracleDuty

open Json

def TotalRewards.toJson (r : TotalRewards) : Json := .object [
  ("protocolDaoRpl", .string r.protocolDaoRpl.decimal),
  ("totalCollateralRpl", .string r.totalCollateralRpl.decimal),
  ("totalOracleDaoRpl", .string r.totalOracleDaoRpl.decimal),
  ("totalSmoothingPoolEth", .string r.totalSmoothingPoolEth.decimal),
  ("poolStakerSmoothingPoolEth", .string r.poolStakerSmoothingPoolEth.decimal),
  ("nodeOperatorSmoothingPoolEth", .string r.nodeOperatorSmoothingPoolEth.decimal)]

def TotalRewards.ofJson? (j : Json) : Option TotalRewards := do
  match ← record? ["protocolDaoRpl", "totalCollateralRpl", "totalOracleDaoRpl",
      "totalSmoothingPoolEth", "poolStakerSmoothingPoolEth", "nodeOperatorSmoothingPoolEth"] j with
  | [some a, some b, some c, some d, some e, some f] =>
    return ⟨← amount? a, ← amount? b, ← amount? c, ← amount? d, ← amount? e, ← amount? f⟩
  | _ => none

def NetworkRewards.toJson (r : NetworkRewards) : Json := .object [
  ("collateralRpl", .string r.collateralRpl.decimal),
  ("oracleDaoRpl", .string r.oracleDaoRpl.decimal),
  ("smoothingPoolEth", .string r.smoothingPoolEth.decimal)]

def NetworkRewards.ofJson? (j : Json) : Option NetworkRewards := do
  match ← record? ["collateralRpl", "oracleDaoRpl", "smoothingPoolEth"] j with
  | [some a, some b, some c] => return ⟨← amount? a, ← amount? b, ← amount? c⟩
  | _ => none

def NodeRewards.toJson (r : NodeRewards) : Json := .object [
  ("rewardNetwork", .ofUInt64 r.rewardNetwork),
  ("collateralRpl", .string r.collateralRpl.decimal),
  ("oracleDaoRpl", .string r.oracleDaoRpl.decimal),
  ("smoothingPoolEth", .string r.smoothingPoolEth.decimal),
  ("merkleProof", .array (r.merkleProof.map fun d => .string d.text))]

/-- A list of digests; a field that is left out is an empty list. -/
def digests? : Option Json → Option (List Digest)
  | none => some []
  | some (.array items) => items.mapM digest?
  | some _ => none

def NodeRewards.ofJson? (j : Json) : Option NodeRewards := do
  match ← record? ["rewardNetwork", "collateralRpl", "oracleDaoRpl", "smoothingPoolEth",
      "merkleProof"] j with
  | [some a, some b, some c, some d, e] =>
    return ⟨← a.uint64?, ← amount? b, ← amount? c, ← amount? d, ← digests? e⟩
  | _ => none

namespace RewardsTree

def headerKeys : List String :=
  ["rewardsFileVersion", "rulesetVersion", "index", "network", "startTime", "endTime",
   "consensusStartBlock", "consensusEndBlock", "executionStartBlock", "executionEndBlock",
   "intervalsPassed", "merkleRoot", "minipoolPerformanceFileCid", "totalRewards", "networkRewards"]

def nodesKey : String := "nodeRewards"

/-- A text; a field that is left out is the empty text. -/
def textOrEmpty? : Option Json → Option String
  | none => some ""
  | some j => j.string?

def headerOf? (entries : List (String × Json)) : Option RewardsHeader := do
  match ← headerKeys.mapM (unique? entries) with
  | [some version, some ruleset, some index, some network, some start, some finish,
      some consensusStart, some consensusEnd, some executionStart, some executionEnd,
      some intervals, some root, cid, some total, some networks] =>
    return {
      rewardsFileVersion := ← version.uint64?
      rulesetVersion := ← ruleset.uint64?
      index := ← index.uint64?
      network := ← network.string?
      startTime := ← instant? start
      endTime := ← instant? finish
      consensusStartBlock := ← consensusStart.uint64?
      consensusEndBlock := ← consensusEnd.uint64?
      executionStartBlock := ← executionStart.uint64?
      executionEndBlock := ← executionEnd.uint64?
      intervalsPassed := ← intervals.uint64?
      merkleRoot := ← digest? root
      minipoolPerformanceFileCid := ← textOrEmpty? cid
      totalRewards := ← TotalRewards.ofJson? total
      networkRewards := ← map? Decimal.uint64? NetworkRewards.ofJson? networks }
  | _ => none

/-- The nodes' rewards; a field that is left out is an empty map. -/
def nodesOf? : Option Json → Option (OrderedMap Address NodeRewards)
  | none => some .empty
  | some j => map? Address.ofText? NodeRewards.ofJson? j

/-- Reads a tree from a document that may have some levels. Everything beside the nodes' rewards must
denote a value, also what is then ignored. -/
def ofJson? (levels : Nat) : Json → Option RewardsTree
  | .object entries => do
    guard ((entries.filter fun e => e.1 != nodesKey).all fun e => e.2.sound (levels - 1))
    let nodes ← nodesOf? (← unique? entries nodesKey)
    let header ← headerOf? entries
    return ⟨header, nodes⟩
  | _ => none

def toJson (t : RewardsTree) : Json :=
  let h := t.header
  .object [
    ("rewardsFileVersion", .ofUInt64 h.rewardsFileVersion),
    ("rulesetVersion", .ofUInt64 h.rulesetVersion),
    ("index", .ofUInt64 h.index),
    ("network", .string h.network),
    ("startTime", .string h.startTime.text),
    ("endTime", .string h.endTime.text),
    ("consensusStartBlock", .ofUInt64 h.consensusStartBlock),
    ("consensusEndBlock", .ofUInt64 h.consensusEndBlock),
    ("executionStartBlock", .ofUInt64 h.executionStartBlock),
    ("executionEndBlock", .ofUInt64 h.executionEndBlock),
    ("intervalsPassed", .ofUInt64 h.intervalsPassed),
    ("merkleRoot", .string h.merkleRoot.text),
    ("minipoolPerformanceFileCid", .string h.minipoolPerformanceFileCid),
    ("totalRewards", h.totalRewards.toJson),
    ("networkRewards", .object (h.networkRewards.entries.map fun (k, r) =>
      (toString k, r.toJson))),
    (nodesKey, .object (t.nodeRewards.entries.map fun (a, r) => (a.text, r.toJson)))]

def encode (t : RewardsTree) : String := t.toJson.render

def decode? (s : String) : Option RewardsTree := (read? s).bind (ofJson? maxDepth)

end OracleDuty.RewardsTree
