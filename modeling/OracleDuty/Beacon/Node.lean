import OracleDuty.Beacon.Error
import OracleDuty.Json.Record
import OracleDuty.Wire
/-!
A beacon node as it is asked over its web interface. Its answers wrap their data, and numbers in them are
decimal texts.
-/
namespace OracleDuty.Beacon

/-! ### Answers -/

def field? {α : Type} (key : String) (read : Json → Option α) (j : Json) : Option α := do
  match ← Json.record? [key] j with
  | [some value] => read value
  | _ => none

def genesisTime? : Json → Option UInt64 := field? "data" (field? "genesis_time" Json.decimal?)

def slotLengths? : Json → Option (UInt64 × UInt64) := field? "data" fun j => do
  match ← Json.record? ["SECONDS_PER_SLOT", "SLOTS_PER_EPOCH"] j with
  | [some seconds, some slots] => return (← Json.decimal? seconds, ← Json.decimal? slots)
  | _ => none

def headSlot? : Json → Option UInt64 :=
  field? "data" (field? "header" (field? "message" (field? "slot" Json.decimal?)))

def finalizedEpoch? : Json → Option UInt64 :=
  field? "data" (field? "finalized" (field? "epoch" Json.decimal?))

def payload? : Json → Option Json
  | .object entries => (Json.unique? entries "execution_payload").map fun j => j.getD .null
  | .array [payload] => some payload
  | _ => none

/-- The number of the execution block in the body of a block; zero when the body carries none. -/
def executionBlock? (body : Json) : Option UInt64 := do
  match ← payload? body with
  | .null => return 0
  | payload => field? "block_number" Json.decimal? payload

def block? : Json → Option Chain.Block := field? "data" (field? "message" fun j => do
  match ← Json.record? ["slot", "body"] j with
  | [some slot, some body] => return ⟨← Json.decimal? slot, ← executionBlock? body⟩
  | _ => none)

/-! ### Requests -/

structure Node where
  base : Url
deriving DecidableEq

namespace Node

def trimSlashes (s : String) : String :=
  String.ofList (s.toList.reverse.dropWhile (· == '/')).reverse

def locator? (n : Node) (path : String) : Option Url :=
  Url.ofText? (trimSlashes n.base.text ++ "/" ++ path)

/-- Asks for what is at a path; nothing being there is an answer. -/
def query {α : Type} (n : Node) (operation path : String) (read : Json → Option α) :
    Wire.Action Error (Option α) := do
  let some url := n.locator? path | throw (.badUrl operation "invalid locator")
  Wire.log .beacon .debug "Querying beacon node"
    [("operation", .text operation), ("url", .shown url.text)]
  let r ← Wire.attempt (fun f => .network operation f.message) (Wire.send ⟨.get, url, [], []⟩)
  if r.status = 404 then return none
  else if !r.status.isSuccess then throw (.refused operation r.status r.text)
  else match r.json?.bind read with
    | some a => return some a
    | none => throw (.unreadable operation "unexpected document")

def require {α : Type} (n : Node) (operation path : String) (read : Json → Option α) :
    Wire.Action Error α := do
  match ← n.query operation path read with
  | some a => return a
  | none => throw (.refused operation 404 (path ++ " not found"))

/-- The timing of the chain. The node is asked until it has answered once. -/
def timing (n : Node) : Wire.Action Error Chain.Timing := do
  match ← Wire.ask .keptTiming with
  | some t => return t
  | none =>
    let genesis ← n.require "get_genesis" "eth/v1/beacon/genesis" genesisTime?
    let (seconds, slots) ← n.require "get_spec" "eth/v1/config/spec" slotLengths?
    Wire.ask (.keepTiming ⟨genesis, seconds, slots⟩)

def head (n : Node) : Wire.Action Error Chain.Head := do
  let t ← n.timing
  let slot ← n.require "get_head_header" "eth/v1/beacon/headers/head" headSlot?
  let finalized ← n.require "get_finality_checkpoints"
    "eth/v1/beacon/states/head/finality_checkpoints" finalizedEpoch?
  return ⟨slot, slot / t.slotsPerEpoch, finalized⟩

def block (n : Node) (slot : UInt64) : Wire.Action Error (Option Chain.Block) :=
  n.query "get_block" s!"eth/v2/beacon/blocks/{slot}" block?

end Node

end OracleDuty.Beacon
