import OracleDuty.Duty.Action
import OracleDuty.Zstd
/-!
The directory of artifacts: the rewards tree and the performance file of every interval, and their
compressed forms. A file is first written beside its place and then renamed, so that a reader never meets
half a file.
-/
namespace OracleDuty

structure Store where
  directory : Path
  network : String
deriving DecidableEq

namespace Store

open Duty

def treePath (s : Store) (index : UInt64) : Path :=
  Path.join s.directory s!"rp-rewards-{s.network}-{index}.json"

def performancePath (s : Store) (index : UInt64) : Path :=
  Path.join s.directory s!"rp-minipool-performance-{s.network}-{index}.json"

def compressedPath (p : Path) : Path := p ++ ".zst"

def temporaryPath (p : Path) : Path := p ++ ".tmp"

def perform (operation : Operation) (path : Path) (request : Disk.Request) : Action request.Result :=
  Action.withCause (fun fault => .store (.io operation path fault))
    (Program.request (Request.disk request))

def writeAtomic (s : Store) (path : Path) (content : Bytes) : Action Unit := do
  perform .create s.directory (.createDirectories s.directory)
  perform .write (temporaryPath path) (.write (temporaryPath path) content)
  perform .rename path (.rename (temporaryPath path) path)

def writeTree (s : Store) (tree : RewardsTree) : Action Bytes := do
  let content := Bytes.ofString tree.encode
  s.writeAtomic (s.treePath tree.header.index) content
  return content

def writePerformance (s : Store) (index : UInt64) (performance : Json) : Action Bytes := do
  let content := Bytes.ofString performance.render
  s.writeAtomic (s.performancePath index) content
  return content

def writeCompressed (s : Store) (path : Path) (content : Bytes) : Action Bytes := do
  let compressed ← Action.ofExcept (fun fault => .store (.compression (compressedPath path) fault))
    (Zstd.encode content)
  s.writeAtomic (compressedPath path) compressed
  Action.log .store .debug "Compressed artifact" [
    ("path", .shown (compressedPath path)),
    ("original_size", .unsigned (UInt64.ofNat content.length)),
    ("compressed_size", .unsigned (UInt64.ofNat compressed.length))]
  return compressed

/-- Compression itself meets no failure: what may fail is the writing of its result. -/
theorem writeCompressed_eq (s : Store) (path : Path) (content : Bytes) :
    s.writeCompressed path content = (do
      s.writeAtomic (compressedPath path) (Zstd.compress content)
      Action.log .store .debug "Compressed artifact" [
        ("path", .shown (compressedPath path)),
        ("original_size", .unsigned (UInt64.ofNat content.length)),
        ("compressed_size", .unsigned (UInt64.ofNat (Zstd.compress content).length))]
      return Zstd.compress content) := rfl

def decode? (content : Bytes) : Option RewardsTree := (Bytes.text? content).bind RewardsTree.decode?

def readTree (s : Store) (index : UInt64) : Action RewardsTree := do
  let path := s.treePath index
  let content ← perform .read path (.read path)
  match decode? content with
  | some tree => return tree
  | none => Action.fail (.store (.unreadable path))

/-- The tree at `path`, if it can be used again: all of the file has to decode, and to cover as many
intervals as have elapsed. A file that is damaged is reported and then ignored. -/
def loadValid (path : Path) (intervalsPassed : UInt64) : Course (Option RewardsTree) := do
  match ← Program.request (Request.disk (.read path)) with
  | .error .notFound =>
    Program.log .cache .debug "No cached rewards tree" [("path", .shown path)]
    return none
  | .error fault =>
    Program.log .cache .warn "Cached rewards tree is unreadable, it will be regenerated"
      [("path", .shown path), ("error", .shown fault.text)]
    return none
  | .ok content =>
    match decode? content with
    | none =>
      Program.log .cache .warn "Cached rewards tree is corrupt, it will be regenerated"
        [("path", .shown path), ("error", .shown "not an artifact")]
      return none
    | some tree =>
      if tree.header.intervalsPassed = intervalsPassed then return some tree
      else
        Program.log .cache .debug "Cached rewards tree covers a different number of intervals" [
          ("path", .shown path),
          ("cached_intervals_passed", .unsigned tree.header.intervalsPassed),
          ("current_intervals_passed", .unsigned intervalsPassed)]
        return none

end Store

end OracleDuty
