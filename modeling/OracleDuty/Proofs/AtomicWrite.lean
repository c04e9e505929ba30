import OracleDuty.Proofs.Duty.Remains
import OracleDuty.Proofs.Duty.Writing
import OracleDuty.Proofs.TreeFile
/-!
Files of the store are written in one step: wherever the writing of a file fails or is cut off, its path
leads to the whole old content or to the whole new one, and no other file changes but the one beside it.

Main statement: `Write.isAtomic`.
-/
namespace OracleDuty.Store

open Duty

variable {s : Store} {path : Path} {content : Bytes} {d₀ d d' : Disk}

/-! ### The disk at each step -/

def Step.Holds (s : Store) (path : Path) (content : Bytes) (d₀ : Disk) : Step → Disk → Prop
  | placing, d => d₀.Confined s.directory (· = temporaryPath path) d ∧
    d.read (temporaryPath path) = .ok content
  | placed, d => d₀.Confined s.directory (fun p => p = path ∨ p = temporaryPath path) d ∧
    d.read path = .ok content ∧ d.read (temporaryPath path) = .error .notFound
  | _, d => d₀.Confined s.directory (· = temporaryPath path) d

/-- Only the file beside the path differs, or the path has the new content. -/
theorem Step.Holds.cases {m : Step} (h : m.Holds s path content d₀ d) :
    d₀.Confined s.directory (· = temporaryPath path) d ∨ Step.placed.Holds s path content d₀ d := by
  cases m with
  | placing => exact .inl h.1
  | placed => exact .inr h
  | _ => exact .inl h

theorem creates_confined {files : Path → Prop} (h : d.Leaves (.createDirectories s.directory) d') :
    d.Confined s.directory files d' := by
  obtain ⟨parents, hp, rfl⟩ := h.createDirectories
  exact Disk.createDirectories_confined hp

theorem writes_confined {files : Path → Prop} (h : d.Leaves (.write (temporaryPath path) content) d')
    (hf : files (temporaryPath path)) : d.Confined s.directory files d' := by
  rcases h.write with rfl | ⟨kept, hw⟩
  · exact .refl ..
  · exact Disk.write_confined hw hf

/-- A move into place that succeeds brings the content that was written. -/
theorem placed_of_rename (hpath : path.Apart (temporaryPath path))
    (hd : d₀.Confined s.directory (· = temporaryPath path) d)
    (hc : d.read (temporaryPath path) = .ok content)
    (hr : d.rename (temporaryPath path) path = .ok d') : Step.placed.Holds s path content d₀ d' := by
  refine ⟨?_, (Disk.read_rename hr content).mpr hc, Disk.read_rename_source hpath hr⟩
  exact (hd.mono fun p hp => .inr hp).trans (Disk.rename_confined hr (.inr rfl) (.inl rfl))

/-- Every answer leads to a step at which what is known of the disk holds. -/
theorem Step.Holds.next (hpath : path.Apart (temporaryPath path)) {m : Step} {q : Request} {a : Answer q}
    (hq : (s.writing path content).asks m q) (ha : d.Answers ⟨q, a⟩ d')
    (h : m.Holds s path content d₀ d) :
    ((s.writing path content).next m q a).Holds s path content d₀ d' := by
  cases m with
  | creating =>
    cases hq
    have hd := Disk.Confined.trans h (creates_confined ha.leaves)
    rcases a with fault | u
    · exact hd
    · exact hd
  | writing =>
    cases hq
    have hd := Disk.Confined.trans h (writes_confined ha.leaves rfl)
    rcases a with fault | u
    · exact hd
    · -- only a write of the whole content succeeds
      cases ha with
      | carriedOut ha => exact ⟨hd, Disk.read_write (Disk.change_ok ha)⟩
      | aside ha => exact absurd rfl (ha _)
  | placing =>
    cases hq
    cases ha with
    | carriedOut ha => exact placed_of_rename hpath h.1 h.2 (Disk.change_ok ha)
    | refused ha =>
      -- a move that has failed did nothing
      rw [ha.rename]
      exact h.1
    | aside ha => exact absurd rfl (ha _)
  | placed => nomatch hq
  | refused => nomatch hq

/-- While the request of a step is under way, only the file beside the path differs, or the path has the
new content. -/
theorem Step.Holds.during (hpath : path.Apart (temporaryPath path)) {m : Step} {q : Disk.Request}
    (hq : (s.writing path content).asks m (.disk q)) (h : m.Holds s path content d₀ d)
    (hl : d.Leaves q d') : d₀.Confined s.directory (· = temporaryPath path) d' ∨
      Step.placed.Holds s path content d₀ d' := by
  cases m with
  | creating =>
    cases hq
    exact .inl (Disk.Confined.trans h (creates_confined hl))
  | writing =>
    cases hq
    exact .inl (Disk.Confined.trans h (writes_confined hl rfl))
  | placing =>
    cases hq
    rcases hl.rename with rfl | hr
    · exact .inl h.1
    · exact .inr (placed_of_rename hpath h.1 h.2 hr)
  | placed => nomatch hq
  | refused => nomatch hq

/-! ### What the store writes -/

/-- Something that the store is asked to write. -/
inductive Write where
  | tree (tree : RewardsTree)
  | performance (index : UInt64) (file : Json)
  | compressed (path : Path) (original : Bytes)

namespace Write

def action (s : Store) : Write → Action Bytes
  | tree t => s.writeTree t
  | performance index file => s.writePerformance index file
  | compressed path original => s.writeCompressed path original

/-- Where it goes. -/
def target (s : Store) : Write → Path
  | tree t => s.treePath t.header.index
  | performance index _ => s.performancePath index
  | compressed path _ => compressedPath path

/-- What goes there. -/
def bytes : Write → Bytes
  | tree t => Bytes.ofString t.encode
  | performance _ file => Bytes.ofString file.render
  | compressed _ original => Zstd.compress original

theorem target_apart (w : Write) : (w.target s).Apart (temporaryPath (w.target s)) := by
  cases w with
  | tree t => exact (apart_temporary _).symm
  | performance index file => exact (temporary_apart_performance _).symm
  | compressed path original => exact (temporary_apart_compressed _ _).symm

/-- Each goes through the steps of its file, and returns what went there. -/
theorem action_guides (s : Store) (w : Write) :
    (s.writing (w.target s) w.bytes).Guides .creating (w.action s) (· = .refused)
      fun m written => m = .placed ∧ written = w.bytes := by
  cases w with
  | tree t =>
    unfold action writeTree
    rw [guides_bind]
    exact (writeAtomic_guides ..).mono (fun _ h => h) fun _ _ h => ⟨h, rfl⟩
  | performance index file =>
    unfold action writePerformance
    rw [guides_bind]
    exact (writeAtomic_guides ..).mono (fun _ h => h) fun _ _ h => ⟨h, rfl⟩
  | compressed path original =>
    rw [action, writeCompressed_eq, guides_bind]
    refine (writeAtomic_guides ..).mono (fun _ h => h) fun _ _ h => ?_
    rw [guides_bind, guides_log]
    exact ⟨h, rfl⟩

/-- Whatever the writing of a file is answered, and wherever it stands or is cut off: only the file and the
one beside it may differ, and directories on the way to the store may have come to be; the path leads to the
file that was there, or holds the new content. If the writing fails the path leads to the file that was
there; if it succeeds the path holds what is returned, and nothing is left beside it. -/
theorem isAtomic (s : Store) (w : Write) {t : List (Exchange Request Answer)}
    {r : Course (Except Report Bytes)} (hp : (w.action s).run.Path t r) (hd : d.Remains t r d') :
    d.Confined s.directory (fun p => p = w.target s ∨ p = temporaryPath (w.target s)) d' ∧
    (Disk.SameFile (w.target s) d d' ∨ d'.read (w.target s) = .ok w.bytes) ∧
    (∀ e, r = .done (.error e) → Disk.SameFile (w.target s) d d') ∧
    ∀ written, r = .done (.ok written) → written = w.bytes ∧
      d'.read (w.target s) = .ok written ∧
      d'.read (temporaryPath (w.target s)) = .error .notFound := by
  have hpath := w.target_apart (s := s)
  have hf := action_guides s w
  have hpost := Program.Follows.path hf hp
  -- what is known at each step is carried along the exchanges
  have hholds : ∀ d', d.Serves t d' → ((s.writing (w.target s) w.bytes).after .creating t).Holds s
      (w.target s) w.bytes d d' := fun d' hs =>
    hs.invariant (fun _ => True) hf hp (fun _ _ => trivial)
      (Disk.Confined.refl s.directory _ d) fun hq _ ha h => h.next hpath hq ha
  -- a request that is cut off belongs to the step that the exchanges have led to
  have hleft : d.Confined s.directory (· = temporaryPath (w.target s)) d' ∨
      Step.placed.Holds s (w.target s) w.bytes d d' := by
    rcases hd.cases hf hp with hs | ⟨q, d₁, hs, hq, hl⟩
    · exact (hholds d' hs).cases
    · exact (hholds d₁ hs).during hpath hq hl
  have hsame : d.Confined s.directory (· = temporaryPath (w.target s)) d' →
      Disk.SameFile (w.target s) d d' := by
    intro h
    apply h.sameFile
    rintro _ rfl
    exact hpath
  refine ⟨?_, ?_, ?_, ?_⟩
  · rcases hleft with h | h
    · exact h.mono fun p hp => .inr hp
    · exact h.1
  · exact hleft.imp hsame fun h => h.2.1
  -- at its end the writing stands at the step that goes with what it returns
  · rintro e rfl
    have h := hholds d' hd.serves_of_done
    rw [show (s.writing (w.target s) w.bytes).after .creating t = .refused from hpost] at h
    exact hsame h
  · rintro written rfl
    have h := hholds d' hd.serves_of_done
    obtain ⟨hm, rfl⟩ : (s.writing (w.target s) w.bytes).after .creating t = .placed ∧
      written = w.bytes := hpost
    rw [hm] at h
    exact ⟨rfl, h.2⟩

end Write

/-- Where the directory of the store is there and has no directories in it, a file is written without
fail. -/
theorem Open.serves_writeAtomic {place : List String} (h : s.Open d place) (hp : s.Owns path)
    (content : Bytes) : ∃ d', s.Open d' place ∧ d'.read path = .ok content ∧ d.Serves
      [⟨.disk (.createDirectories s.directory), .ok ()⟩,
        ⟨.disk (.write (temporaryPath path) content), .ok ()⟩,
        ⟨.disk (.rename (temporaryPath path) path), .ok ()⟩] d' := by
  obtain ⟨d₁, d', hwrite, hrename, hopen, hread⟩ := h.put hp content
  exact ⟨d', hopen, hread, .cons (.carriedOut h.creates) (.cons (.carriedOut hwrite)
    (.cons (.carriedOut hrename) (.nil d')))⟩

namespace Sample

def disk : Disk := ⟨.empty, []⟩

def here : Store := ⟨"", "Hölešky"⟩

theorem open_here : here.Open disk [] := by
  refine ⟨⟨rfl, rfl⟩, ?_, by decide⟩
  intro name h
  cases h

end Sample

open Store.Sample in
theorem write_isAtomic_sample : ∃ t d', ((Write.tree tree).action here).run.Path t
      (.done (.ok (Write.tree tree).bytes)) ∧
    disk.Remains t (.done (.ok (Write.tree tree).bytes) : Course (Except Report Bytes)) d' ∧
    d'.read ((Write.tree tree).target here) = .ok (Write.tree tree).bytes ∧
    d'.read (temporaryPath ((Write.tree tree).target here)) = .error .notFound := by
  obtain ⟨d', -, -, hs⟩ := open_here.serves_writeAtomic
    (here.owns_treePath tree.header.index) (Write.tree tree).bytes
  have hends : ((Write.tree tree).action here).run.Ends _ (.ok (Write.tree tree).bytes) :=
    ends_run_bind.mpr ⟨(), _, [], rfl, ends_writeAtomic _ _ _, .refl _⟩
  have hremains : disk.Remains _ (.done (.ok (Write.tree tree).bytes) : Course (Except Report Bytes)) d' :=
    .standing hs
  obtain ⟨-, -, -, hok⟩ := Write.isAtomic here (.tree tree) hends hremains
  obtain ⟨-, hread, hgone⟩ := hok _ rfl
  exact ⟨_, d', hends, hremains, hread, hgone⟩

end OracleDuty.Store
