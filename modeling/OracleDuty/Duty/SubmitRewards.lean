import OracleDuty.Background
import OracleDuty.Duty.Settings
import OracleDuty.Ledger
import OracleDuty.NetworkState
import OracleDuty.Snapshot.Resolve
/-!
Rewards trees: when an interval has closed and its snapshot is final, the tree is built or taken from the
store, published, and submitted. The checks are made in the foreground; all else goes on in the background.
-/
namespace OracleDuty.Duty.SubmitRewards

def name : String := "submit_rewards_tree"

def unpublished : String := "---"

structure Job where
  isMember : Bool
  interval : Interval
  intervalsPassed : UInt64
  target : Snapshot.Target
deriving DecidableEq

namespace Job

def indexField (j : Job) : String × Log.Value := ("index", .unsigned j.interval.index)

def request (s : Settings) (j : Job) : Generation.Request where
  network := s.store.network
  index := j.interval.index
  intervalsPassed := j.intervalsPassed
  startTime := j.interval.startTime
  endTime := j.target.endTime
  consensusBlock := j.target.consensusBlock
  executionBlock := j.target.executionBlock

def publish (s : Settings) (path : Path) (content : Bytes) : Action String := do
  let compressed ← s.store.writeCompressed path content
  let file := Path.fileName (Store.compressedPath path)
  let cid ← Action.withCause .publication (Program.request (Request.upload file compressed))
  Action.log .rewards .info "Uploaded artifact" [("file", .text file), ("cid", .shown cid)]
  return cid

def generate (s : Settings) (j : Job) : Action RewardsTree := do
  if 1 < j.intervalsPassed then
    Action.log .rewards .warn
      "Multiple intervals have passed since the last rewards submission, rolling them into one"
      [j.indexField, ("intervals_passed", .unsigned j.intervalsPassed)]
  let request := j.request s
  Action.log .rewards .info "Generating rewards tree" [j.indexField,
    ("consensus_block", .unsigned request.consensusBlock),
    ("execution_block", .unsigned request.executionBlock)]
  let reply ← (Action.withCause .generation (Program.request (Request.generate request))).noting
    s!"Failed to generate rewards tree for interval {j.interval.index}"
  let performance ← s.store.writePerformance j.interval.index reply.performance
  let cid ←
    if j.isMember then publish s (s.store.performancePath j.interval.index) performance
    else pure unpublished
  return { reply.tree with
    header := { reply.tree.header with minipoolPerformanceFileCid := cid } }

def alreadySubmitted (s : Settings) (j : Job) : Action Bool := do
  let submitted ← (Ledger.hasSubmitted .rewardsSnapshot s.node (RewardsTree.word j.interval.index)
    none).noting "Failed to check rewards snapshot submission"
  if submitted then
    Action.log .rewards .info "Rewards snapshot for this interval was already submitted" [j.indexField]
    Action.count .skippedDuplicates name
  return submitted

def publishAndSubmit (s : Settings) (j : Job) (tree : RewardsTree) (content : Bytes) :
    Action Unit := do
  let cid ← publish s (s.store.treePath j.interval.index) content
  let hash ← (ask (Program.request
    (Request.submit (.submitRewardSnapshot (tree.submission cid)) (s.options 0)))).noting
    s!"Failed to submit rewards snapshot for interval {j.interval.index}"
  Action.count .submissions name
  Action.log .rewards .info "Submitted rewards snapshot"
    [j.indexField, ("tree_cid", .shown cid), ("tx_hash", .shown (Digest.text hash))]

def attest (s : Settings) (j : Job) (tree : RewardsTree) (content : Bytes) : Action Unit := do
  if !j.isMember then return ()
  else if ← j.alreadySubmitted s then return ()
  else j.publishAndSubmit s tree content

def execute (s : Settings) (j : Job) : Action Unit := do
  let path := s.store.treePath j.interval.index
  let pathField : String × Log.Value := ("path", .shown path)
  match ← ExceptT.lift (Store.loadValid path j.intervalsPassed) with
  | some tree =>
    Action.log .rewards .info "Rewards tree already exists" [j.indexField, pathField]
    j.attest s tree (Bytes.ofString tree.encode)
  | none =>
    let tree ← j.generate s
    let content ← s.store.writeTree tree
    Action.log .rewards .info "Saved rewards tree" [j.indexField, pathField]
    j.attest s tree content

end Job

def launch (s : Settings) (state : NetworkState) : Action (Option Job) := do
  let isMember := state.isMember s.node
  if !isMember && s.treeMode != .generate then
    Action.log .rewards .debug
      "Node is not an oracle member and does not generate trees, returning safely." []
    return none
  else
    let interval := state.interval
    let index := ("index", Log.Value.unsigned interval.index)
    let now := state.timing.slotTime state.slot
    let elapsed ← Action.ofExcept .interval (Interval.elapsed now interval.startTime interval.duration)
    if elapsed = 0 then
      Action.log .rewards .debug "Reward interval has not closed yet, returning safely."
        [index, ("chain_time", .unsigned now)]
      return none
    else
      let endTime ← Action.ofExcept .interval
        (Interval.lastBoundary now interval.startTime interval.duration)
      Action.log .rewards .info "Reward interval has closed"
        [index, ("intervals_passed", .unsigned elapsed), ("end_time", .unsigned endTime)]
      let head ← (ask (Program.request Request.head)).noting "Failed to get beacon head"
      let maxWalkback := s.maxWalkback.getD state.timing.slotsPerEpoch
      match ← Snapshot.resolve endTime state.timing head.finalizedEpoch maxWalkback with
      | .ready target => return some ⟨isMember, interval, elapsed, target⟩
      | .awaitingFinality plan finalizedEpoch =>
        Action.log .rewards .info "Snapshot epoch has not been finalized yet, waiting." [index,
          ("target_epoch", .unsigned plan.targetEpoch), ("finalized_epoch", .unsigned finalizedEpoch)]
        return none

def run (s : Settings) (state : NetworkState) : Action (Option (Background Request Answer)) := do
  return (← launch s state).map fun job => ⟨name, job.execute s⟩

end OracleDuty.Duty.SubmitRewards
