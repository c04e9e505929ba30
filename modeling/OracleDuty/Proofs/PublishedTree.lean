import OracleDuty.Proofs.Unhindered
import OracleDuty.Proofs.Zstd
/-!
The tree that is published is the tree that is stored, and the tree that is submitted: in a directory that was
empty at first every file of a tree is the text of a tree of its interval, and a submission goes out only
while the file is there whose packed bytes were uploaded under the identifier that is submitted.
-/
namespace OracleDuty

open Duty Duty.SubmitRewards

namespace PublishedTree

/-- The directory is there, and its files of trees are trees of their intervals. -/
structure Settled (s : Store) (d : Disk) (place : List String) : Prop where
  directory : d.DirectoryAt s.directory place
  network : '/' ∉ s.network.toList
  trees : ∀ i content, d.read (s.treePath i) = .ok content →
    ∃ t, content = treeBytes t ∧ t.header.index = i

def Tidy (s : Store) (d : Disk) : Prop := d.Vacant s.directory ∨ ∃ place, Settled s d place

variable {s : Settings} {j : Job} {m : Phase} {d d' : Disk}

theorem not_read_of_vacant (hv : d.Vacant s.store.directory) (i : UInt64) (content : Bytes) :
    d.read (s.store.treePath i) ≠ .ok content := by
  intro hr
  obtain ⟨place, hl, hat⟩ := Disk.read_ok.mp hr
  obtain ⟨_, _, hnone⟩ := (s.store.owns_treePath i).locate_of_vacant hv hl
  cases hnone.symm.trans hat

theorem Tidy.trees (h : Tidy s.store d) {i : UInt64} {content : Bytes}
    (hr : d.read (s.store.treePath i) = .ok content) :
    ∃ t, content = treeBytes t ∧ t.header.index = i := by
  rcases h with hv | ⟨place, hs⟩
  · exact absurd hr (not_read_of_vacant hv i content)
  · exact hs.trees i content hr

/-- A file that is put in its place is not the one of a tree, unless it is a tree. -/
theorem apart_of_place (hn : '/' ∉ s.store.network.toList) (e : Errand) (i : UInt64)
    (he : ∀ t, e = .tree t → t.header.index ≠ i) : (e.path s j).Apart (s.store.treePath i) := by
  cases e with
  | performance r => exact Store.apart_performance_of_network hn
  | packedPerformance r => exact Store.apart_compressed _
  | tree t => exact Store.apart_tree (he t rfl)
  | packedTree t => exact Store.apart_compressed _

/-- What is written beside the files of trees leaves them. -/
theorem Settled.writes {place : List String} (h : Settled s.store d place) {p : Path} {kept : Bytes}
    (hw : d.write (Store.temporaryPath p) kept = .ok d') : Settled s.store d' place where
  directory := h.directory.same (Disk.write_sameDirectories hw)
  network := h.network
  trees i content hr :=
    h.trees i content ((Disk.read_write_of_apart (Store.apart_temporary p) hw content).mp hr)

/-- The first file that is written finds the directory there, and no trees in it. -/
theorem settled_of_write (hv : d.Vacant s.store.directory) (e : Errand) {kept : Bytes}
    (hw : d.write (Store.temporaryPath (e.path s j)) kept = .ok d') :
    ∃ place, Settled s.store d' place := by
  obtain ⟨place, hl, _⟩ := Disk.write_ok.mp hw
  obtain ⟨hn, ⟨parent, hdir⟩, _⟩ := e.owns_path.temporary.locate_of_vacant hv hl
  refine ⟨parent, ?_⟩
  constructor
  case directory => exact hdir.same (Disk.write_sameDirectories hw)
  case network => exact hn
  case trees =>
    intro i content hr
    have hold := (Disk.read_write_of_apart (Store.apart_temporary _) hw content).mp hr
    exact absurd hold (not_read_of_vacant hv i content)

/-- A tree that is put in its place is a tree of the interval that its name tells. -/
theorem Settled.places {place : List String} (h : Settled s.store d place) {e : Errand}
    (hw : Written s j d (.placing e))
    (hr : d.rename (Store.temporaryPath (e.path s j)) (e.path s j) = .ok d') :
    Settled s.store d' place where
  directory := h.directory.same (Disk.rename_sameDirectories hr)
  network := h.network
  trees i content hread := by
    by_cases he : ∃ t, e = .tree t ∧ t.header.index = i
    · -- the tree of this interval has just been put there
      obtain ⟨t, rfl, rfl⟩ := he
      have hold := (Disk.read_rename hr content).mp hread
      exact ⟨t, hw content hold, rfl⟩
    · have hapart : (e.path s j).Apart (s.store.treePath i) := by
        apply apart_of_place h.network
        intro t ht hi
        exact he ⟨t, ht, hi⟩
      have hold := Disk.read_rename_of_apart (Store.apart_temporary _) hapart hr content
      exact h.trees i content (hold.mp hread)

/-- What an execution does leaves the directory tidy, if it puts in its place only what it has written. -/
theorem Tidy.does (h : Tidy s.store d) (hd : m.Does s j d d') (hw : Written s j d m) :
    Tidy s.store d' := by
  cases hd with
  | nothing => exact h
  | creates hc =>
    rcases h with hv | ⟨place, hs⟩
    · exact .inl (hv.creates hc)
    · obtain ⟨parents, hp, rfl⟩ := hc
      rw [Disk.createDirectories_of_directoryAt hs.directory hp]
      exact .inr ⟨place, hs⟩
  | @writes e _ _ kept hkept =>
    rcases h with hv | ⟨place, hs⟩
    · exact .inr (settled_of_write hv e hkept)
    · exact .inr ⟨place, hs.writes hkept⟩
  | @places e _ _ hr =>
    rcases h with hv | ⟨place, hs⟩
    · -- in a vacant directory there is nothing to be moved
      obtain ⟨old, _, content, hl, _, hold, _⟩ := Disk.rename_ok.mp hr
      obtain ⟨_, _, hnone⟩ := e.owns_path.temporary.locate_of_vacant hv hl
      cases hnone.symm.trans hold
    · exact .inr ⟨place, hs.places hw hr⟩

/-! ### What an execution may rely on -/

def Stored (s : Settings) (j : Job) (d : Disk) (t : RewardsTree) : Prop :=
  d.read (s.store.treePath j.interval.index) = .ok (treeBytes t)

def Packed (s : Settings) (j : Job) (d : Disk) (t : RewardsTree) : Prop :=
  d.read (Store.compressedPath (s.store.treePath j.interval.index)) =
    .ok (Zstd.compress (treeBytes t))

def Behind (s : Settings) (j : Job) (d : Disk) : Errand → Prop
  | .packedTree t => Stored s j d t
  | _ => True

def Backed (s : Settings) (j : Job) (log : List (Event Request Answer)) (n : Nat) (d : Disk) :
    Phase → Prop
  | .creating e => Behind s j d e
  | .writing e => Behind s j d e
  | .placing e => Behind s j d e
  | .checking t => Stored s j d t
  | .uploadingTree t => Stored s j d t ∧ Packed s j d t
  | .submitting t cid => Stored s j d t ∧ Packed s j d t ∧
    .heard (some n) (.upload
      (Path.fileName (Store.compressedPath (s.store.treePath j.interval.index)))
      (Zstd.compress (treeBytes t))) (.ok cid) ∈ log
  | _ => True

variable {log : List (Event Request Answer)} {n : Nat}

theorem Backed.mono {log' : List (Event Request Answer)} (h : Backed s j log n d m)
    (hl : ∀ e ∈ log, e ∈ log') : Backed s j log' n d m := by
  cases m with
  | submitting t cid => exact ⟨h.1, h.2.1, hl _ h.2.2⟩
  | _ => exact h

/-- What stands behind something that is put in the store is not undone by the steps of putting it there. -/
theorem Behind.does {e : Errand} (hm : m = .creating e ∨ m = .writing e ∨ m = .placing e)
    (h : Behind s j d e) (hd : m.Does s j d d') : Behind s j d' e := by
  cases e with
  | packedTree t =>
    refine hd.read (fun q => Store.apart_temporary q) ?_ h
    rintro e' rfl
    rcases hm with hm | hm | hm
    · cases hm
    · cases hm
    · cases hm
      exact Store.apart_compressed _
  | _ => trivial

/-- An act by which an execution stays in its phase leaves what stands behind the phase. -/
theorem Backed.does (h : Backed s j log n d m) (hd : m.Does s j d d') : Backed s j log n d' m := by
  cases m with
  | creating e => exact Behind.does (.inl rfl) h hd
  | writing e => exact Behind.does (.inr (.inl rfl)) h hd
  | placing e => exact Behind.does (.inr (.inr rfl)) h hd
  | _ =>
    cases hd
    exact h

variable {σ : Type} {w : World σ Request Answer} {disk : σ → Disk} {st st' : σ}

/-- The tree that is found in a tidy directory is the stored one, and one of the interval. -/
theorem found_stored (hd : UsesDisk w disk) (ht : Tidy s.store (disk st)) {content : Bytes}
    {t : RewardsTree} (ha : w.answer (.disk (.read (s.store.treePath j.interval.index))) st =
      (.answer (.ok content), st')) (hdec : Store.decode? content = some t) :
    Stored s j (disk st') t ∧ t.header.index = j.interval.index := by
  have hread : (disk st).read (s.store.treePath j.interval.index) = .ok content :=
    congrArg Prod.fst (hd.carriesOut ha)
  have hsame : disk st = disk st' := congrArg Prod.snd (hd.carriesOut ha)
  obtain ⟨t', rfl, hi⟩ := ht.trees hread
  cases (Store.decode?_ofString_encode t').symm.trans hdec
  rw [hsame] at hread
  exact ⟨hread, hi⟩

/-- An answer leads to a phase that is backed again. -/
theorem Backed.next (hd : UsesDisk w disk) (ht : Tidy s.store (disk st))
    (hi : m.Indexed j.interval.index) (hw : Written s j (disk st) m)
    (h : Backed s j log n (disk st) m) {q : Request} {a : Answer q} (hq : (script s j).asks m q)
    (ha : w.answer q st = (.answer a, st')) :
    Backed s j (.heard (some n) q a :: log) n (disk st') ((script s j).next m q a) := by
  have hgo := goes_next hq a
  have habout : (Act.hear q a).About ((script s j).asks m) := hq
  -- whatever the answer is, all that stood behind the phase still stands
  have hkept : Backed s j (.heard (some n) q a :: log) n (disk st') m :=
    (h.does (hd.does habout (.hear ha))).mono fun e he => List.mem_cons_of_mem _ he
  generalize (script s j).next m q a = m' at hgo
  cases hgo with
  | found hdec =>
    exact attesting_cases (motive := Backed s j _ n _) (found_stored hd ht ha hdec).1 trivial
  | created e => exact hkept
  | written e => exact hkept
  | placed e =>
    obtain ⟨_, hplaced⟩ := hd.placed hw ha
    cases e with
    | performance r => exact stored_performance_cases (motive := Backed s j _ n _) trivial trivial
    | packedPerformance r => trivial
    | tree t =>
      -- it was put under its own index, which is that of the interval
      have hindex : t.header.index = j.interval.index := hi
      refine attesting_cases (motive := Backed s j _ n _) ?_ trivial
      rw [Backed, Stored, ← hindex]
      exact hplaced
    | packedTree t => exact ⟨hkept, hplaced⟩
  | unrecorded t => exact hkept
  | uploaded t cid => exact ⟨hkept.1, hkept.2, List.mem_cons_self⟩
  | _ => trivial

/-- The trees of a tidy directory, and those of the service, are of the interval that they are asked for. -/
theorem honest {service : Generation.Service} (hd : UsesDisk w disk) (hg : GeneratedBy service w)
    (ht : Tidy s.store (disk st)) {q : Request} {a : Answer q} (hq : (script s j).asks m q)
    (ha : w.answer q st = (.answer a, st')) : Honest j.interval.index q a := by
  cases m with
  | reading =>
    cases hq
    rcases a with fault | content
    · trivial
    · exact fun t hdec => (found_stored hd ht ha hdec).2
  | generating =>
    cases hq
    rcases a with e | reply
    · trivial
    · exact hg.index_eq ha
  | ended => nomatch hq
  | _ =>
    cases hq
    trivial

/-- All that an execution does keeps the directory tidy, and what it has in hand backed by the store. -/
theorem upholds {service : Generation.Service} (hd : UsesDisk w disk) (hg : GeneratedBy service w) :
    Upholds s w disk (fun _ d => Tidy s.store d) fun log d n j m =>
      m.Indexed j.interval.index ∧ Written s j d m ∧ Backed s j log n d m where
  fact_mono h _ := h
  mono h hl := ⟨h.1, h.2.1, h.2.2.mono hl⟩
  start _ _ := ⟨trivial, trivial, trivial⟩
  does := by
    rintro log d d' n j m hdoes ht ⟨hi, hw, hb⟩
    exact ⟨ht.does hdoes hw, hi, hw.does hdoes, hb.does hdoes⟩
  hear := by
    rintro log st st' n j m q a hq ha ht ⟨hi, hw, hb⟩
    refine ⟨(goes_next hq a).indexed hi (honest hd hg ht hq ha), hd.written hq ha, ?_⟩
    exact hb.next hd ht hi hw hq ha

/-- From an empty directory on the trees that are brought are those that were asked for. -/
theorem keepsIndices {service : Generation.Service} (hd : UsesDisk w disk) (hr : ReadsDisk w disk)
    (hg : GeneratedBy service w) (hv : (disk st).Vacant s.store.directory)
    {p : Process σ Request Answer Controller} (hp : Process.Reachable w (Trigger s) st p) :
    KeepsIndices s.store p.log where
  stored := by
    intro number i content t hheard hdecode
    obtain ⟨p₀, st', h₀, ha⟩ := hp.answered hheard
    have hheld := ((upholds hd hg).keeps hd).reachable (discipline_valid s) (.inl hv) h₀
    obtain ⟨t', rfl, hindex⟩ := hheld.fact.trees (hr ha).symm
    cases (Store.decode?_ofString_encode t').symm.trans hdecode
    exact hindex
  generated := by
    intro number request reply hheard
    obtain ⟨p₀, st', h₀, ha⟩ := hp.answered hheard
    exact hg.index_eq ha

end PublishedTree

/-- What stands behind a submission of the execution `n`: an upload of its own, and the two files of the
interval `i`. -/
structure Published (s : Store) (d : Disk) (log : List (Event Request Answer)) (n : Nat)
    (x : SnapshotSubmission) (i : UInt64) (tree : RewardsTree) (packed content : Bytes) : Prop where
  index : x.rewardIndex = RewardsTree.word i
  submission : x = tree.submission x.merkleTreeCid
  uploaded : .heard (some n) (.upload (Path.fileName (Store.compressedPath (s.treePath i))) packed)
    (.ok x.merkleTreeCid) ∈ log
  unpacks : Zstd.decompress? packed = some content
  stored : d.read (s.treePath i) = .ok content
  packed : d.read (Store.compressedPath (s.treePath i)) = .ok packed
  decodes : Store.decode? content = some tree

/-- From an empty directory on, whatever happens, every file of a tree is the text of a tree of its interval;
and whenever a snapshot is submitted, the identifier in it is one that the same execution was given for an
upload that unpacks to the stored tree, and the submission is the one of that tree. -/
theorem published_tree {σ : Type} {s : Settings} {w : World σ Request Answer} {disk : σ → Disk}
    {service : Generation.Service} (hd : UsesDisk w disk) (hg : GeneratedBy service w) {st : σ}
    (hv : (disk st).Vacant s.store.directory) {p : Process σ Request Answer Controller}
    (hp : Process.Reachable w (Trigger s) st p) :
    (∀ i content, (disk p.engine.world).read (s.store.treePath i) = .ok content →
      ∃ tree : RewardsTree, content = Bytes.ofString tree.encode ∧ tree.header.index = i) ∧
    ∀ p' number x options, Process.Step w (Trigger s) p p' →
      p'.log = .sent number (.submit (.submitRewardSnapshot x) options) :: p.log →
      ∃ n i tree packed content, number = some n ∧
        Published s.store (disk p'.engine.world) p.log n x i tree packed content := by
  have hheld := ((PublishedTree.upholds hd hg).keeps hd).reachable (discipline_valid s) (.inl hv) hp
  refine ⟨fun i content hr => hheld.fact.trees hr, ?_⟩
  -- a snapshot is submitted by an execution of the rewards task only
  intro p' number x options hstep hlog
  obtain ⟨hm, ⟨_, hmild⟩ | ⟨⟨n, l, ⟨j, m⟩ | ⟨j, m⟩⟩, hn, hx, hq⟩⟩ :=
    hheld.sent (discipline_valid s) (Process.sound_of_reachable hp) hstep hlog
  · exact hmild.elim
  · obtain ⟨t, cid, rfl, hcall, _⟩ := asks_submit hq
    cases hcall
    obtain ⟨hi, _, hstored, hpacked, hup⟩ := hx.2 j _ rfl
    have hindex : t.header.index = j.interval.index := hi
    have hsame : disk p'.engine.world = disk p.engine.world := hd.aside hm (by rintro r ⟨⟩)
    refine ⟨n, j.interval.index, t, Zstd.compress (treeBytes t), treeBytes t, hn, ?_⟩
    rw [hsame]
    constructor
    case index => exact congrArg RewardsTree.word hindex
    case submission => rfl
    case uploaded => exact hup
    case unpacks => exact Zstd.decompress?_compress _
    case stored => exact hstored
    case packed => exact hpacked
    case decodes => exact Store.decode?_ofString_encode t
  · obtain ⟨_, _, hcall, _⟩ := SubmitPrices.asks_submit hq
    cases hcall

theorem published_tree_sample : ∃ p p' x i tree packed content,
    Process.Reachable Sample.world (Trigger Sample.settings) ⟨Sample.disk, []⟩ p ∧
    Process.Step Sample.world (Trigger Sample.settings) p p' ∧
    p'.log = .sent (some 1) (.submit (.submitRewardSnapshot x) (Sample.settings.options 0)) :: p.log ∧
    Published Sample.settings.store p'.engine.world.disk p.log 1 x i tree packed content := by
  obtain ⟨p, hp, hlog⟩ := Sample.resumes
  simp only [Sample.laterLog, Scene.laterLog, transcript_append, List.cons_append] at hlog
  have hsent : p.log = [_] ++ _ :: _ := hlog
  obtain ⟨p₀, p₁, h₀, hstep, hl₀, hl, _⟩ := hp.split hsent
  rw [← hl₀] at hl
  obtain ⟨n, i, tree, packed, content, hn, hpublished⟩ :=
    (published_tree Scene.usesDisk Sample.generatedBy Sample.vacant h₀).2 p₁ _ _ _ hstep hl
  cases hn
  exact ⟨p₀, p₁, _, i, tree, packed, content, h₀, hstep, hl, hpublished⟩

end OracleDuty
