import OracleDuty.Proofs.Path
import OracleDuty.Proofs.Store
/-!
Tree files: what the store writes for a rewards tree reads back as that tree, so that the file tells the
tree, and a file that was read and written anew is not changed any more by being read and written.

Main statement: `tree_file_roundTrip`.
-/
namespace OracleDuty.Store

open Duty Program

variable {operation : Operation} {path : Path} {request : Disk.Request} {s : Store} {t : RewardsTree}
  {content : Bytes} {u : List (Exchange Request Answer)}

/-- A request to the disk succeeds when it is answered with a result. -/
theorem ends_perform {r : request.Result} :
    (perform operation path request).run.Ends u (.ok r) ↔ u = [⟨.disk request, .ok r⟩] := by
  rw [perform, Action.withCause, run_adapt, ends_bind]
  constructor
  · rintro ⟨a | a, v, v', rfl, hv, hv'⟩
    · cases (ends_done.mp hv').2
    · obtain ⟨rfl, he⟩ := ends_done.mp hv'
      cases he
      obtain ⟨b, v', rfl, hb⟩ := ends_ask.mp hv
      obtain ⟨rfl, rfl⟩ := ends_done.mp hb
      rfl
  · rintro rfl
    exact ⟨.ok r, _, [], rfl, .ask (.refl _), .refl _⟩

theorem asks_perform {q : Request} (h : (perform operation path request).run.Asks u q) :
    q = .disk request := by
  rw [perform, Action.withCause, run_adapt, asks_bind] at h
  rcases h with ⟨next, h⟩ | ⟨a, v, v', rfl, hv, next, h⟩
  · cases h with
    | refl => rfl
    | ask h => cases h
  · cases h

/-- The directory is made, the file is written beside its place and moved there. -/
theorem ends_writeAtomic (s : Store) (path : Path) (content : Bytes) :
    (s.writeAtomic path content).run.Ends
      [⟨.disk (.createDirectories s.directory), .ok ()⟩,
        ⟨.disk (.write (temporaryPath path) content), .ok ()⟩,
        ⟨.disk (.rename (temporaryPath path) path), .ok ()⟩] (.ok ()) := by
  refine ends_run_bind.mpr ⟨(), [_], [_, _], rfl, ends_perform.mpr rfl, ?_⟩
  exact ends_run_bind.mpr ⟨(), [_], [_], rfl, ends_perform.mpr rfl, ends_perform.mpr rfl⟩

/-- Tells what the store writes into a file for a tree. -/
def Writes (s : Store) (t : RewardsTree) (path : Path) (content : Bytes) : Prop :=
  ∃ u, (s.writeTree t).run.Asks u (.disk (.write path content))

/-- Tells what the store returns for a tree when it has written the file. -/
def Produces (s : Store) (t : RewardsTree) (content : Bytes) : Prop :=
  ∃ u, (s.writeTree t).run.Ends u (.ok content)

/-- The bytes of a tree file are those of the tree's text, put beside its place first. -/
theorem Writes.eq (h : s.Writes t path content) :
    path = temporaryPath (s.treePath t.header.index) ∧ content = Bytes.ofString t.encode := by
  obtain ⟨u, hu⟩ := h
  rw [writeTree] at hu
  rcases asks_run_bind.mp hu with h | ⟨_, _, _, _, _, next, h⟩
  · -- of the three requests only the second writes
    rw [writeAtomic] at h
    rcases asks_run_bind.mp h with h | ⟨_, _, _, _, _, h⟩
    · cases asks_perform h
    rcases asks_run_bind.mp h with h | ⟨_, _, _, _, _, h⟩
    · cases asks_perform h
      exact ⟨rfl, rfl⟩
    · cases asks_perform h
  · cases h

theorem produces_iff : s.Produces t content ↔ content = Bytes.ofString t.encode := by
  constructor
  · rintro ⟨u, hu⟩
    obtain ⟨_, _, _, _, _, h⟩ := ends_run_bind.mp hu
    cases (ends_done.mp h).2
    rfl
  · rintro rfl
    exact ⟨_, ends_run_bind.mpr ⟨(), _, [], (List.append_nil _).symm, ends_writeAtomic _ _ _, .refl _⟩⟩

/-- A file that decodes is read as what it decodes to. -/
theorem ends_readTree {index : UInt64} (h : decode? content = some t) :
    (s.readTree index).run.Ends [⟨.disk (.read (s.treePath index)), .ok content⟩] (.ok t) := by
  refine ends_run_bind.mpr ⟨content, [_], [], rfl, ends_perform.mpr rfl, ?_⟩
  simp only [h]
  exact .refl _

/-- Any tree is told by its file: by what is returned, by what the disk is given, and by what is read again.
A file that some other text was read and written as stays as it is when it is read and written again. -/
theorem tree_file_roundTrip (s : Store) (t : RewardsTree) :
    (∃ content, s.Produces t content) ∧
    (∀ content, s.Produces t content → decode? content = some t ∧
      (s.readTree t.header.index).run.Ends
        [⟨.disk (.read (s.treePath t.header.index)), .ok content⟩] (.ok t)) ∧
    (∀ path content, s.Writes t path content → s.Produces t content) ∧
    (∀ s' t' content, s.Produces t content → Produces s' t' content → t' = t) ∧
    ∀ given, decode? given = some t → ∀ content, s.Produces t content →
      ∃ t', decode? content = some t' ∧ ∀ s' again, Produces s' t' again → again = content := by
  have hdecode : ∀ content, s.Produces t content → decode? content = some t := by
    intro content h
    rw [produces_iff.mp h]
    exact decode?_ofString_encode t
  refine ⟨⟨_, produces_iff.mpr rfl⟩, ?_, ?_, ?_, ?_⟩
  · intro content h
    exact ⟨hdecode content h, ends_readTree (hdecode content h)⟩
  · intro path content h
    exact produces_iff.mpr h.eq.2
  · intro s' t' content h h'
    have hread := hdecode content h
    rw [produces_iff.mp h', decode?_ofString_encode] at hread
    exact Option.some.inj hread
  · intro given _ content h
    refine ⟨t, hdecode content h, ?_⟩
    intro s' again h'
    rw [produces_iff.mp h', produces_iff.mp h]

namespace Sample

def tree : RewardsTree where
  header := {
    rewardsFileVersion := 3
    rulesetVersion := 18446744073709551615
    index := 5
    network := "Hölešky \"\\\n"
    startTime := ⟨⟨-44, 3, 15, by decide⟩, 43200, 500000000, by decide⟩
    endTime := ⟨⟨2016, 12, 31, by decide⟩, 86399, 1000000001, by decide⟩
    consensusStartBlock := 9
    consensusEndBlock := 94
    executionStartBlock := 1009
    executionEndBlock := 1094
    intervalsPassed := 1
    merkleRoot := .allOnes 256
    minipoolPerformanceFileCid := ""
    totalRewards := ⟨.allOnes 256, 2, 3, 4, 5, 6⟩
    networkRewards := .ofList [(3, ⟨10, 20, .allOnes 256⟩), (0, ⟨11, 21, 31⟩)] }
  nodeRewards := .ofList [(.allOnes 160, ⟨3, 40, 50, 60, [70, 80]⟩), (0, ⟨0, 0, 0, 0, []⟩)]

def store : Store := ⟨"rewards", "Hölešky"⟩

end Sample

open Store.Sample in
theorem tree_file_roundTrip_sample : ∃ content, store.Produces tree content ∧
    decode? content = some tree ∧ ∀ content, store.Produces { tree with nodeRewards := .empty } content →
      ¬ store.Produces tree content := by
  obtain ⟨⟨content, h⟩, hread, _, hone, _⟩ := tree_file_roundTrip store tree
  refine ⟨content, h, (hread content h).1, ?_⟩
  intro content' hother hsame
  have htree := hone _ _ content' hsame hother
  have hnodes := congrArg (fun t : RewardsTree => t.nodeRewards.entries.length) htree
  exact absurd hnodes (by decide)

end OracleDuty.Store
