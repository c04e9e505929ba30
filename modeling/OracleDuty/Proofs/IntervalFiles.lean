import OracleDuty.Proofs.AtomicWrite
import OracleDuty.Proofs.Unhindered
/-!
The files of an interval: they are told apart by their names from each other and from those of all other
intervals, and an execution for the interval touches no others.

Main statements: `Store.File.name_injective`, `Store.File.path_apart` and `execute_confined`.
-/
namespace OracleDuty

open Duty

namespace Store

inductive Kind where
  | tree
  | performance
deriving DecidableEq

/-- A file of the store: of which interval and kind, whether compressed, and whether it is the one beside it
that is being written. -/
structure File where
  kind : Kind
  index : UInt64
  compressed : Bool
  temporary : Bool
deriving DecidableEq

def Kind.front : Kind → String
  | tree => "rp-rewards-"
  | performance => "rp-minipool-performance-"

namespace File

def marked (mark : String) (present : Bool) : String := if present then mark else ""

def back (f : File) : String := ending f.index ++ marked ".zst" f.compressed ++ marked ".tmp" f.temporary

def name (network : String) (f : File) : String := f.kind.front ++ network ++ f.back

def path (s : Store) (f : File) : Path := Path.join s.directory (f.name s.network)

variable {s : Store} {i k : UInt64} {f g : File}

theorem path_eq (s : Store) (f : File) :
    f.path s = Path.join s.directory (f.kind.front ++ s.network) ++ f.back :=
  join_append ..

theorem path_tree (s : Store) (i : UInt64) : path s ⟨.tree, i, false, false⟩ = s.treePath i := by
  rw [path_eq, treePath_eq]
  simp [Kind.front, treeStem, back, marked]

theorem path_performance (s : Store) (i : UInt64) :
    path s ⟨.performance, i, false, false⟩ = s.performancePath i := by
  rw [path_eq, performancePath_eq]
  simp [Kind.front, performanceStem, back, marked]

theorem path_compressed (s : Store) (kind : Kind) (i : UInt64) :
    path s ⟨kind, i, true, false⟩ = compressedPath (path s ⟨kind, i, false, false⟩) := by
  simp [path_eq, compressedPath, back, marked, String.append_assoc]

theorem path_temporary (s : Store) (kind : Kind) (i : UInt64) (compressed : Bool) :
    path s ⟨kind, i, compressed, true⟩ = temporaryPath (path s ⟨kind, i, compressed, false⟩) := by
  simp [path_eq, temporaryPath, back, marked, String.append_assoc]

/-! ### Names -/

/-- A mark is told from a text before it that ends with another letter. -/
theorem marked_inj {mark a b s t : String} {x y : Bool} {m c e : Char}
    (hm : mark.toList.getLast? = some m) (hs : s.toList.getLast? = some c) (hc : c ≠ m)
    (ht : t.toList.getLast? = some e) (he : e ≠ m)
    (h : a ++ (s ++ marked mark x) = b ++ (t ++ marked mark y)) : x = y ∧ a ++ s = b ++ t := by
  -- where only one of the texts has the mark, they end with different letters
  have hlast : ∀ u : String, (u ++ mark).toList.getLast? = some m := by
    intro u
    rw [String.toList_append, List.getLast?_append, hm]
    rfl
  cases x with
  | false =>
    cases y with
    | false =>
      simp only [marked, Bool.false_eq_true, if_false, String.append_empty] at h
      exact ⟨rfl, h⟩
    | true =>
      simp only [marked, Bool.false_eq_true, if_false, if_true, String.append_empty] at h
      exact absurd h (append_ne_of_getLast hs (hlast t) hc)
  | true =>
    cases y with
    | false =>
      simp only [marked, Bool.false_eq_true, if_false, if_true, String.append_empty] at h
      exact absurd h (append_ne_of_getLast (hlast s) ht (Ne.symm he))
    | true =>
      simp only [marked, if_true, ← String.append_assoc, String.append_left_inj] at h
      exact ⟨rfl, h⟩

/-- All but the kind of a file is told by how its name ends. -/
theorem back_inj {a b : String} (h : a ++ f.back = b ++ g.back) :
    f.index = g.index ∧ f.compressed = g.compressed ∧ f.temporary = g.temporary := by
  -- the marks are taken off from the end, and what is left ends with the index
  have hlast : ∀ (i : UInt64) (x : Bool), ∃ c, (ending i ++ marked ".zst" x).toList.getLast? = some c ∧
      c ≠ 'p' := by
    intro i x
    rw [String.toList_append, List.getLast?_append, getLast_ending]
    cases x with
    | false => exact ⟨'n', rfl, by decide⟩
    | true => exact ⟨'t', rfl, by decide⟩
  obtain ⟨c, hf, hc⟩ := hlast f.index f.compressed
  obtain ⟨e, hg, he⟩ := hlast g.index g.compressed
  obtain ⟨htemporary, h⟩ := marked_inj rfl hf hc hg he h
  obtain ⟨hcompressed, h⟩ :=
    marked_inj rfl (getLast_ending f.index) (by decide) (getLast_ending g.index) (by decide) h
  exact ⟨ending_inj h, hcompressed, htemporary⟩

/-- No two files of the store have one name. -/
theorem name_injective {network : String} (h : f.name network = g.name network) : f = g := by
  obtain ⟨hindex, hcompressed, htemporary⟩ := back_inj h
  obtain ⟨kind, i, x, y⟩ := f
  obtain ⟨kind', k, x', y'⟩ := g
  cases hindex
  cases hcompressed
  cases htemporary
  -- the kinds are told by the fourth letter
  cases kind with
  | tree =>
    cases kind' with
    | tree => rfl
    | performance => exact absurd h.symm (letter_ne _ _)
  | performance =>
    cases kind' with
    | tree => exact absurd h (letter_ne _ _)
    | performance => rfl

example : name "mainnet" ⟨.performance, 31, true, true⟩ =
    "rp-minipool-performance-mainnet-31.json.zst.tmp" := by rfl

theorem slash_not_mem_back (f : File) : '/' ∉ f.back.toList := by
  have hmark : ∀ (mark : String) (x : Bool), '/' ∉ mark.toList → '/' ∉ (marked mark x).toList := by
    intro mark x h
    cases x with
    | false => exact List.not_mem_nil
    | true => exact h
  simp only [back, String.toList_append, List.mem_append, not_or]
  exact ⟨⟨slash_not_mem_ending _, hmark _ _ (by decide)⟩, hmark _ _ (by decide)⟩

theorem two_lt_length_back (f : File) : 2 < f.back.length := by
  have h := two_lt_length_ending f.index
  simp only [back, String.length_append]
  omega

theorem endsAt_path (s : Store) (f : File) : ∃ last, (f.path s).EndsAt last := by
  obtain ⟨last, h⟩ := Path.endsAt_append (Path.join s.directory (f.kind.front ++ s.network))
  rw [path_eq]
  exact ⟨_, h f.back (two_lt_length_back f) (slash_not_mem_back f)⟩

/-- Files of different intervals end with different names, whatever the network is called. -/
theorem path_apart (s : Store) (h : f.index ≠ g.index) : (f.path s).Apart (g.path s) := by
  rw [path_eq, path_eq]
  exact Path.apart_append (two_lt_length_back f) (two_lt_length_back g) (slash_not_mem_back f)
    (slash_not_mem_back g) fun _ _ hab => h (back_inj hab).1

end File

/-- The paths of the files of an interval. -/
def OfInterval (s : Store) (i : UInt64) (p : Path) : Prop := ∃ f : File, f.index = i ∧ p = f.path s

end Store

namespace Duty.SubmitRewards

open Store (File)

variable {s : Settings} {j : Job} {m m' : Phase} {d d' : Disk} {i : UInt64}

def Errand.file (j : Job) : Errand → File
  | performance _ => ⟨.performance, j.interval.index, false, false⟩
  | packedPerformance _ => ⟨.performance, j.interval.index, true, false⟩
  | tree t => ⟨.tree, t.header.index, false, false⟩
  | packedTree _ => ⟨.tree, j.interval.index, true, false⟩

/-- Everything that an execution stores is a file of its interval's kinds. -/
theorem Errand.path_eq (e : Errand) : e.path s j = (e.file j).path s.store := by
  cases e with
  | performance r => exact (File.path_performance _ _).symm
  | packedPerformance r =>
    rw [Errand.path, ← File.path_performance]
    exact (File.path_compressed ..).symm
  | tree t => exact (File.path_tree _ _).symm
  | packedTree t =>
    rw [Errand.path, ← File.path_tree]
    exact (File.path_compressed ..).symm

/-- The file beside it. -/
theorem Errand.temporaryPath_eq (e : Errand) :
    Store.temporaryPath (e.path s j) = File.path s.store { e.file j with temporary := true } := by
  rw [e.path_eq]
  cases e with
  | _ => exact (File.path_temporary ..).symm

def Errand.Within (i : UInt64) : Errand → Prop
  | performance r => r.tree.header.index = i
  | packedPerformance r => r.tree.header.index = i
  | tree t => t.header.index = i
  | packedTree _ => True

def Phase.Within (i : UInt64) : Phase → Prop
  | creating e => e.Within i
  | writing e => e.Within i
  | placing e => e.Within i
  | uploadingPerformance r => r.tree.header.index = i
  | _ => True

theorem Errand.Within.file_index {e : Errand} (h : e.Within j.interval.index) :
    (e.file j).index = j.interval.index := by
  cases e with
  | tree t => exact h
  | _ => rfl

theorem within_attesting {t : RewardsTree} : (Phase.attesting j t).Within i :=
  attesting_cases (motive := Phase.Within i) trivial trivial

theorem within_stored {e : Errand} (h : e.Within i) : (Phase.stored j e).Within i := by
  cases e with
  | performance r => exact stored_performance_cases (motive := Phase.Within i) h h
  | packedPerformance r => exact h
  | tree t => exact within_attesting
  | packedTree t => trivial

def Matching : (q : Request) → Answer q → Prop
  | .generate request, .ok reply => reply.tree.header.index = request.index
  | _, _ => True

/-- An execution stays with the files of its interval as long as the generator does. -/
theorem Phase.Goes.within {q : Request} {a : Answer q} (h : Phase.Goes s j m q a m')
    (hm : m.Within j.interval.index) (ha : Matching q a) : m'.Within j.interval.index := by
  cases h with
  | found => exact within_attesting
  | generated reply => exact ha
  | created e => exact hm
  | written e => exact hm
  | placed e => exact within_stored hm
  | published => exact hm
  | _ => trivial

/-- What an execution does to the disk is confined to the files of its interval. -/
theorem Phase.Does.confined (h : m.Does s j d d') (hm : m.Within j.interval.index) :
    d.Confined s.store.directory (s.store.OfInterval j.interval.index) d' := by
  have hpath : ∀ {e : Errand}, e.Within j.interval.index →
      s.store.OfInterval j.interval.index (e.path s j) := fun he => ⟨_, he.file_index, Errand.path_eq _⟩
  have htemporary : ∀ {e : Errand}, e.Within j.interval.index →
      s.store.OfInterval j.interval.index (Store.temporaryPath (e.path s j)) := fun {e} he =>
    ⟨{ e.file j with temporary := true }, he.file_index, e.temporaryPath_eq⟩
  cases h with
  | nothing => exact .refl ..
  | creates h =>
    obtain ⟨parents, hp, rfl⟩ := h
    exact Disk.createDirectories_confined hp
  | writes h => exact Disk.write_confined h (htemporary hm)
  | places h => exact Disk.rename_confined h (htemporary hm) (hpath hm)

/-- One request touches files of the interval only. -/
theorem confined_of_answers {q : Request} {a : Answer q} (hq : (script s j).asks m q)
    (h : d.Answers ⟨q, a⟩ d') (hm : m.Within j.interval.index) :
    d.Confined s.store.directory (s.store.OfInterval j.interval.index) d' := by
  by_cases hr : ∃ r, q = .disk r
  · obtain ⟨r, rfl⟩ := hr
    exact (Phase.does_of_leaves hq h.leaves).confined hm
  · cases h with
    | aside => exact .refl ..
    | carriedOut => exact absurd ⟨_, rfl⟩ hr
    | refused => exact absurd ⟨_, rfl⟩ hr

/-- An execution for an interval, wherever it stands or is cut off, has touched only files of the interval,
if the replies of the generator are those that the service gave; no two files of the store have one name,
and the files of any other interval are as they were. -/
theorem execute_confined (s : Settings) (j : Job) (service : Generation.Service)
    {t : List (Exchange Request Answer)} {r : Course (Except Report Unit)}
    (hp : (j.execute s).run.Path t r) (hd : d.Remains t r d')
    (hg : ∀ request reply, (⟨.generate request, .ok reply⟩ : Exchange Request Answer) ∈ t →
      ∃ u, (service.generate request).run.Ends u (.ok reply)) :
    d.Confined s.store.directory (s.store.OfInterval j.interval.index) d' ∧
    (∀ f g : File, f.name s.store.network = g.name s.store.network → f = g) ∧
    ∀ f : File, f.index ≠ j.interval.index → Disk.SameFile (f.path s.store) d d' ∧
      ∀ content, d.read (f.path s.store) = .ok content → d'.read (f.path s.store) = .ok content := by
  -- the service gives no reply about another interval than the one that it was asked for
  have hmatching : ∀ e ∈ t, Matching e.request e.answer := by
    rintro ⟨q, a⟩ he
    cases q with
    | generate request =>
      rcases a with e | reply
      · trivial
      · obtain ⟨u, hu⟩ := hg request reply he
        exact Generation.Service.index_of_ends hu
    | _ => trivial
  have hf := execute_follows (s := s) (j := j)
  -- where a tree is put depends on the tree in hand, so that this is kept track of as well
  have hholds : ∀ d', d.Serves t d' → ((script s j).after .reading t).Within j.interval.index ∧
      d.Confined s.store.directory (s.store.OfInterval j.interval.index) d' := fun d' hs =>
    hs.invariant (P := fun m d' => m.Within j.interval.index ∧
      d.Confined s.store.directory (s.store.OfInterval j.interval.index) d') _ hf hp hmatching
      ⟨trivial, .refl ..⟩ fun hq hh ha h =>
        ⟨(goes_next hq _).within h.1 hh, h.2.trans (confined_of_answers hq ha h.1)⟩
  have hconfined : d.Confined s.store.directory (s.store.OfInterval j.interval.index) d' := by
    rcases hd.cases hf hp with hs | ⟨q, d₁, hs, hq, hl⟩
    · exact (hholds d' hs).2
    · obtain ⟨hm, h⟩ := hholds d₁ hs
      exact h.trans ((Phase.does_of_leaves hq hl).confined hm)
  refine ⟨hconfined, fun f g => File.name_injective, ?_⟩
  intro f hne
  have hsame : Disk.SameFile (f.path s.store) d d' := by
    apply hconfined.sameFile
    rintro _ ⟨g, hg, rfl⟩
    apply File.path_apart
    rw [hg]
    exact hne
  obtain ⟨last, hlast⟩ := File.endsAt_path s.store f
  exact ⟨hsame, fun content hr => hsame.read hlast hr⟩

end Duty.SubmitRewards

namespace Sample

open Duty.SubmitRewards

def begun : List (Exchange Request Answer) :=
  [⟨.disk (.read (settings.store.treePath 5)), .error .notFound⟩,
    ⟨.generate (job.request settings), .ok reply⟩,
    ⟨.disk (.createDirectories settings.store.directory), .ok ()⟩]

theorem asks_begun : (job.execute settings).run.Asks begun (.disk (.write
    (Store.temporaryPath (settings.store.performancePath 5)) (performanceBytes reply))) :=
  (asks_iff_admits _ _ _).mpr ⟨rfl, rfl, rfl, rfl⟩

theorem generated_begun : ∀ request r, (⟨.generate request, .ok r⟩ : Exchange Request Answer) ∈ begun →
    ∃ u, (service.generate request).run.Ends u (.ok r) := by
  intro request r h
  have he : (⟨.generate request, .ok r⟩ : Exchange Request Answer) =
      ⟨.generate (job.request settings), .ok reply⟩ := by
    simpa [begun] using h
  cases he
  exact ⟨_, Generation.Service.ends_generate rfl (by decide) lasting rfl⟩

end Sample

open Sample Duty.SubmitRewards in
theorem execute_confined_sample : ∃ r, ∃ d d' : Disk, (job.execute settings).run.Path begun r ∧
    d.Remains begun r d' ∧ d.read (settings.store.treePath 4) = .ok [7] ∧
    d'.read (settings.store.treePath 4) = .ok [7] := by
  -- the tree of the interval before is there
  obtain ⟨name, hl⟩ := opened.locate (settings.store.owns_treePath 4)
  obtain ⟨d, hd⟩ : ∃ d, disk.write (settings.store.treePath 4) [7] = .ok d :=
    ⟨_, Disk.write_ok.mpr ⟨_, hl, opened.files name, rfl⟩⟩
  have hread := Disk.read_write hd
  have hopen := opened.same (Disk.write_sameDirectories hd)
  have hgenerate : ∀ r, Duty.Request.generate (job.request settings) ≠ .disk r := by
    intro r h
    cases h
  have hserves : d.Serves begun d := .cons (.refused (.untouched _))
    (.cons (.aside hgenerate) (.cons (.carriedOut hopen.creates) (.nil d)))
  obtain ⟨next, hpath⟩ := asks_begun
  have hpart := List.take_prefix 3 (performanceBytes reply)
  have hremains : d.Remains begun (.ask (.disk (.write _ (performanceBytes reply))) next) _ :=
    .during hserves (.partWritten hpart)
  obtain ⟨-, -, hother⟩ := execute_confined settings job service hpath hremains generated_begun
  obtain ⟨-, hkept⟩ := hother ⟨.tree, 4, false, false⟩ (by decide)
  rw [Store.File.path_tree] at hkept
  exact ⟨_, d, _, hpath, hremains, hread, hkept _ hread⟩

end OracleDuty
