import OracleDuty.Proofs.PublishedTree
/-!
Where trees come from: in a directory that was empty at first, every tree that is stored or submitted is one
that the generator sent to an execution, this one or an earlier one, with the identifier of its performance
file filled in by that execution.

Main statement: `submitted_tree_origin`.
-/
namespace OracleDuty

open Duty Duty.SubmitRewards

namespace TreeOrigin

def performanceFile (s : Settings) (i : UInt64) : String :=
  Path.fileName (Store.compressedPath (s.store.performancePath i))

structure Sent (s : Settings) (log : List (Event Request Answer)) (n : Nat) (j : Job)
    (reply : Generation.Reply) : Prop where
  started : .started n (work s j) ∈ log
  heard : .heard (some n) (.generate (j.request s)) (.ok reply) ∈ log

def Publishes (s : Settings) (log : List (Event Request Answer)) (n : Nat) (j : Job)
    (reply : Generation.Reply) (cid : String) : Prop :=
  .heard (some n) (.upload (performanceFile s j.interval.index) (Zstd.compress (performanceBytes reply)))
    (.ok cid) ∈ log

structure MadeBy (s : Settings) (log : List (Event Request Answer)) (n : Nat) (j : Job)
    (reply : Generation.Reply) (t : RewardsTree) : Prop extends Sent s log n j reply where
  tree : t = withPerformance reply.tree t.header.minipoolPerformanceFileCid
  member : j.isMember = true → Publishes s log n j reply t.header.minipoolPerformanceFileCid
  other : j.isMember = false → t.header.minipoolPerformanceFileCid = unpublished

def Vouched (s : Settings) (log : List (Event Request Answer)) (i : UInt64) (t : RewardsTree) : Prop :=
  ∃ n j reply, j.interval.index = i ∧ MadeBy s log n j reply t

def Carried (s : Settings) (log : List (Event Request Answer)) (n : Nat) (j : Job) : Errand → Prop
  | .performance r => Sent s log n j r
  | .packedPerformance r => Sent s log n j r ∧ j.isMember = true
  | .tree t => Vouched s log j.interval.index t
  | .packedTree t => Vouched s log j.interval.index t

def Known (s : Settings) (log : List (Event Request Answer)) (n : Nat) (j : Job) : Phase → Prop
  | .creating e => Carried s log n j e
  | .writing e => Carried s log n j e
  | .placing e => Carried s log n j e
  | .uploadingPerformance r => Sent s log n j r ∧ j.isMember = true
  | .checking t => Vouched s log j.interval.index t
  | .uploadingTree t => Vouched s log j.interval.index t
  | .submitting t _ => Vouched s log j.interval.index t
  | _ => True

def AllVouched (s : Settings) (log : List (Event Request Answer)) (d : Disk) : Prop :=
  ∀ i t, d.read (s.store.treePath i) = .ok (treeBytes t) → Vouched s log i t

section

variable {s : Settings} {log log' : List (Event Request Answer)} {n : Nat} {j : Job} {m : Phase}
  {reply : Generation.Reply} {t : RewardsTree} {i : UInt64} {d d' : Disk}

theorem Sent.mono (h : Sent s log n j reply) (hl : ∀ e ∈ log, e ∈ log') : Sent s log' n j reply :=
  ⟨hl _ h.started, hl _ h.heard⟩

theorem Vouched.mono (h : Vouched s log i t) (hl : ∀ e ∈ log, e ∈ log') : Vouched s log' i t := by
  obtain ⟨n, j, reply, hi, hmade⟩ := h
  exact ⟨n, j, reply, hi, hmade.toSent.mono hl, hmade.tree, fun hj => hl _ (hmade.member hj), hmade.other⟩

theorem Carried.mono {e : Errand} (h : Carried s log n j e) (hl : ∀ e ∈ log, e ∈ log') :
    Carried s log' n j e := by
  cases e with
  | performance r => exact Sent.mono h hl
  | packedPerformance r => exact ⟨h.1.mono hl, h.2⟩
  | tree t => exact Vouched.mono h hl
  | packedTree t => exact Vouched.mono h hl

/-- What is known of a tree stays known as the log grows. -/
theorem Known.mono (h : Known s log n j m) (hl : ∀ e ∈ log, e ∈ log') : Known s log' n j m := by
  cases m with
  | creating e => exact Carried.mono h hl
  | writing e => exact Carried.mono h hl
  | placing e => exact Carried.mono h hl
  | uploadingPerformance r => exact ⟨h.1.mono hl, h.2⟩
  | checking t => exact Vouched.mono h hl
  | uploadingTree t => exact Vouched.mono h hl
  | submitting t cid => exact Vouched.mono h hl
  | _ => trivial

/-- A tree that is in the directory after an act was there before, or was put there by the act. -/
theorem tree_of_does (ht : PublishedTree.Tidy s.store d) (hd : m.Does s j d d') (hw : Written s j d m)
    (hr : d'.read (s.store.treePath i) = .ok (treeBytes t)) :
    d.read (s.store.treePath i) = .ok (treeBytes t) ∨
      m = .placing (.tree t) ∧ t.header.index = i := by
  cases hd with
  | nothing => exact .inl hr
  | creates hc =>
    rcases ht with hv | ⟨place, hs⟩
    · exact absurd hr (PublishedTree.not_read_of_vacant (hv.creates hc) i _)
    · obtain ⟨parents, hp, rfl⟩ := hc
      rw [Disk.createDirectories_of_directoryAt hs.directory hp] at hr
      exact .inl hr
  | writes hkept => exact .inl ((Disk.read_write_of_apart (Store.apart_temporary _) hkept _).mp hr)
  | @places e _ _ hmoved =>
    rcases ht with hv | ⟨place, hs⟩
    · -- in a vacant directory there is nothing to be moved
      obtain ⟨old, _, content, hl, _, hold, _⟩ := Disk.rename_ok.mp hmoved
      obtain ⟨_, _, hnone⟩ := e.owns_path.temporary.locate_of_vacant hv hl
      cases hnone.symm.trans hold
    · by_cases he : ∃ t', e = .tree t' ∧ t'.header.index = i
      · obtain ⟨t', rfl, rfl⟩ := he
        have hcontent := hw _ ((Disk.read_rename hmoved _).mp hr)
        have hsame : t = t' := by
          have hdecode := Store.decode?_ofString_encode t
          rw [show Bytes.ofString t.encode = Bytes.ofString t'.encode from hcontent,
            Store.decode?_ofString_encode] at hdecode
          exact (Option.some.inj hdecode).symm
        subst hsame
        exact .inr ⟨rfl, rfl⟩
      · have hapart : (e.path s j).Apart (s.store.treePath i) := by
          apply PublishedTree.apart_of_place hs.network
          intro t' ht' hi
          exact he ⟨t', ht', hi⟩
        exact .inl ((Disk.read_rename_of_apart (Store.apart_temporary _) hapart hmoved _).mp hr)

/-- The trees in the directory stay vouched for, as only those that are vouched for are put there. -/
theorem AllVouched.does (h : AllVouched s log d) (ht : PublishedTree.Tidy s.store d)
    (hd : m.Does s j d d') (hw : Written s j d m) (hi : m.Indexed j.interval.index)
    (hk : Known s log n j m) : AllVouched s log d' := by
  intro i t hr
  rcases tree_of_does ht hd hw hr with hr | ⟨rfl, rfl⟩
  · exact h i t hr
  · have hindex : t.header.index = j.interval.index := hi
    rw [hindex]
    exact hk

/-- The tree of a reply is vouched for, where the identifier is what it must be. -/
theorem Sent.vouched {cid : String} (h : Sent s log n j reply)
    (hmember : j.isMember = true → Publishes s log n j reply cid)
    (hother : j.isMember = false → cid = unpublished) :
    Vouched s log j.interval.index (withPerformance reply.tree cid) :=
  ⟨n, j, reply, rfl, h, rfl, hmember, hother⟩

end

section

variable {s : Settings} {log : List (Event Request Answer)} {n : Nat} {j : Job} {m : Phase} {σ : Type}
  {w : World σ Request Answer} {disk : σ → Disk} {st st' : σ}

/-- An answer leads to a phase about which as much is known. -/
theorem Known.next (hd : UsesDisk w disk) (ht : PublishedTree.Tidy s.store (disk st))
    (hall : AllVouched s log (disk st)) (hs : .started n (work s j) ∈ log) (hk : Known s log n j m)
    {q : Request} {a : Answer q} (hq : (script s j).asks m q) (ha : w.answer q st = (.answer a, st')) :
    Known s (.heard (some n) q a :: log) n j ((script s j).next m q a) := by
  have hgo := goes_next hq a
  have hlater : ∀ e ∈ log, e ∈ .heard (some n) q a :: log := fun e he => List.mem_cons_of_mem _ he
  have hold := hk.mono hlater
  generalize (script s j).next m q a = m' at hgo
  cases hgo with
  | @found content t hdecode =>
    -- the tree that is found is one in the directory
    have hread : (disk st).read (s.store.treePath j.interval.index) = .ok (treeBytes t) := by
      have hsame : disk st = disk st' := congrArg Prod.snd (hd.carriesOut ha)
      rw [hsame]
      exact (PublishedTree.found_stored hd ht ha hdecode).1
    have hvouched := (hall _ t hread).mono hlater
    exact attesting_cases (motive := Known s _ n j) hvouched trivial
  | generated reply => exact ⟨hlater _ hs, List.mem_cons_self⟩
  | created e => exact hold
  | written e => exact hold
  | placed e =>
    cases e with
    | performance r =>
      -- only a member goes on to upload it; for others the identifier is settled here
      have hsent : Sent s _ n j r := hold
      simp only [Phase.stored]
      cases hm : j.isMember with
      | true => exact ⟨hsent, hm⟩
      | false => exact hsent.vouched (by simp [hm]) fun _ => rfl
    | packedPerformance r => exact hold
    | tree t => exact attesting_cases (motive := Known s _ n j) hold trivial
    | packedTree t => exact hold
  | published r file content cid =>
    cases hq
    obtain ⟨hsent, hm⟩ := hold
    exact hsent.vouched (fun _ => List.mem_cons_self) (by simp [hm])
  | unrecorded t => exact hold
  | uploaded t cid => exact hold
  | _ => trivial

structure Holds (s : Settings) (log : List (Event Request Answer)) (d : Disk) (n : Nat) (j : Job)
    (m : Phase) : Prop where
  started : .started n (work s j) ∈ log
  indexed : m.Indexed j.interval.index
  written : Written s j d m
  backed : PublishedTree.Backed s j log n d m
  known : Known s log n j m

/-- All that an execution does keeps the trees of the directory, and the one in hand, vouched for. -/
theorem upholds {service : Generation.Service} (hd : UsesDisk w disk) (hg : GeneratedBy service w) :
    Upholds s w disk (fun log d => PublishedTree.Tidy s.store d ∧ AllVouched s log d) (Holds s) where
  fact_mono h hl := ⟨h.1, fun i t hr => (h.2 i t hr).mono hl⟩
  mono h hl := ⟨hl _ h.started, h.indexed, h.written, h.backed.mono hl, h.known.mono hl⟩
  start hs _ := ⟨hs, trivial, trivial, trivial, trivial⟩
  does hdoes hI hK :=
    ⟨⟨hI.1.does hdoes hK.written, hI.2.does hI.1 hdoes hK.written hK.indexed hK.known⟩,
      ⟨hK.started, hK.indexed, hK.written.does hdoes, hK.backed.does hdoes, hK.known⟩⟩
  hear := by
    intro log st st' n j m q a hq ha hI hK
    constructor
    case started => exact List.mem_cons_of_mem _ hK.started
    case indexed => exact (goes_next hq a).indexed hK.indexed (PublishedTree.honest hd hg hI.1 hq ha)
    case written => exact hd.written hq ha
    case backed => exact hK.backed.next hd hI.1 hK.indexed hK.written hq ha
    case known => exact hK.known.next hd hI.1 hI.2 hK.started hq ha

/-- An execution that submits a snapshot has its tree in hand, and all that is known of it. -/
theorem submitting_of_sent {service : Generation.Service} (hd : UsesDisk w disk)
    (hg : GeneratedBy service w) (hv : (disk st).Vacant s.store.directory)
    {p p' : Process σ Request Answer Controller} (hp : Process.Reachable w (Trigger s) st p)
    {number : Option Nat} {x : SnapshotSubmission} {options : TxOptions}
    (hstep : Process.Step w (Trigger s) p p')
    (hlog : p'.log = .sent number (.submit (.submitRewardSnapshot x) options) :: p.log) :
    ∃ n j t cid, number = some n ∧ x = t.submission cid ∧
      Holds s p.log (disk p.engine.world) n j (.submitting t cid) := by
  have hI : PublishedTree.Tidy s.store (disk st) ∧ AllVouched s [] (disk st) :=
    ⟨.inl hv, fun i t hr => absurd hr (PublishedTree.not_read_of_vacant hv i _)⟩
  have hheld := ((upholds hd hg).keeps hd).reachable (discipline_valid s) hI hp
  -- a snapshot is submitted by an execution of the rewards task only
  obtain ⟨_, ⟨_, hmild⟩ | ⟨⟨n, l, ⟨j, m⟩ | ⟨j, m⟩⟩, hn, hx, hq⟩⟩ :=
    hheld.sent (discipline_valid s) (Process.sound_of_reachable hp) hstep hlog
  · exact hmild.elim
  · obtain ⟨t, cid, rfl, hcall, _⟩ := asks_submit hq
    cases hcall
    exact ⟨n, j, t, cid, hn, rfl, hx.2 j _ rfl⟩
  · obtain ⟨_, _, hcall, _⟩ := SubmitPrices.asks_submit hq
    cases hcall

/-- Executions that find a tree tell members from others: only members go on to the registry. -/
theorem asks_flag_iff {t : RewardsTree} (ht : t.header.intervalsPassed = j.intervalsPassed) :
    (j.execute s).run.Asks [⟨.disk (.read (s.store.treePath j.interval.index)), .ok (treeBytes t)⟩]
      (.flag (Submission.key .rewardsSnapshot s.node (RewardsTree.word j.interval.index) none) none) ↔
      j.isMember = true := by
  rw [asks_iff_admits]
  have hfound : (script s j).next .reading (.disk (.read (s.store.treePath j.interval.index)))
      (.ok (treeBytes t)) = Phase.attesting j t := by
    change Phase.found j (.ok (treeBytes t)) = _
    simp only [Phase.found, treeBytes, Store.decode?_ofString_encode, ht, if_true]
  constructor
  · rintro ⟨_, hasks⟩
    rw [hfound] at hasks
    cases hm : j.isMember with
    | true => rfl
    | false =>
      simp only [Phase.attesting, hm, Bool.false_eq_true, if_false] at hasks
      cases hasks
  · intro hm
    refine ⟨rfl, ?_⟩
    rw [hfound]
    simp only [Phase.attesting, hm, if_true]
    rfl

/-- Whether it is a member's can be told from an execution. -/
theorem isMember_of_execute {j j' : Job} (h : j.execute s = j'.execute s) : j.isMember = j'.isMember := by
  have hrequest := SnapshotRequest.request_of_execute h
  have hindex : j.interval.index = j'.interval.index := congrArg Generation.Request.index hrequest
  have hcount : j.intervalsPassed = j'.intervalsPassed :=
    congrArg Generation.Request.intervalsPassed hrequest
  -- a tree that the one uses again is used again by the other
  let t : RewardsTree :=
    { Sample.tree with header := { Sample.tree.header with intervalsPassed := j.intervalsPassed } }
  have hfirst := asks_flag_iff (s := s) (j := j) (t := t) rfl
  have hsecond := asks_flag_iff (s := s) (j := j') (t := t) hcount
  rw [← hindex, ← h] at hsecond
  exact Bool.eq_iff_iff.mpr (hfirst.symm.trans hsecond)

end

end TreeOrigin

/-- The tree `t` of the interval `i` comes of a round in a state: the execution `n` was launched for it then,
and was sent the tree; as a member's it has published the performance file under the identifier in the tree,
and otherwise there is no identifier in it. -/
structure TreeOrigin (s : Settings) (log : List (Event Request Answer)) (i : UInt64) (t : RewardsTree)
    (n : Nat) (state : NetworkState) (reply : Generation.Reply) : Prop where
  launched : ∃ j u, (launch s state).run.Ends u (.ok (some j)) ∧ .started n (work s j) ∈ log ∧
    .heard (some n) (.generate (j.request s)) (.ok reply) ∈ log
  index : state.interval.index = i
  tree : t = withPerformance reply.tree t.header.minipoolPerformanceFileCid
  member : state.isMember s.node = true → .heard (some n)
    (.upload (TreeOrigin.performanceFile s i) (Zstd.compress (performanceBytes reply)))
    (.ok t.header.minipoolPerformanceFileCid) ∈ log
  other : state.isMember s.node = false →
    s.treeMode = .generate ∧ t.header.minipoolPerformanceFileCid = unpublished

namespace TreeOrigin

/-- What is vouched for comes of a round. -/
theorem of_vouched {σ : Type} {s : Settings} {w : World σ Request Answer} {st : σ}
    {p : Process σ Request Answer Controller} (hp : Process.Reachable w (Trigger s) st p) {i : UInt64}
    {t : RewardsTree} (h : Vouched s p.log i t) : ∃ n state reply, TreeOrigin s p.log i t n state reply := by
  obtain ⟨n, j, reply, rfl, hmade⟩ := h
  -- the job that was called for may be another one, but it is executed in the same way
  obtain ⟨j', hsame, state, u, hends⟩ := called_of_started hp hmade.started rfl
  have hwork : work s j = work s j' := hsame
  have hexecute : j.execute s = j'.execute s := (Background.mk.inj hwork).2
  have hrequest := SnapshotRequest.request_of_execute hexecute
  have hmember := isMember_of_execute hexecute
  have hdue := SubmitRewards.dueAt_of_launch hends
  refine ⟨n, state, reply, ?_⟩
  constructor
  case launched =>
    refine ⟨j', u, hends, hwork ▸ hmade.started, ?_⟩
    rw [← hrequest]
    exact hmade.heard
  case index =>
    rw [← hdue.interval]
    exact (congrArg Generation.Request.index hrequest).symm
  case tree => exact hmade.tree
  case member =>
    intro h
    apply hmade.member
    rw [hmember, hdue.isMember, h]
  case other =>
    intro h
    have hgenerates : s.treeMode = .generate := by
      apply hdue.concerned.resolve_left
      simp [h]
    refine ⟨hgenerates, hmade.other ?_⟩
    rw [hmember, hdue.isMember, h]

end TreeOrigin

/-- From an empty directory on, whatever happens, a snapshot that is submitted is the one of a tree that the
same execution has uploaded, and that comes of a round for its interval. There is an identifier of the
performance file in it, given for an upload of that file, if and only if the node was a member in that
round; the execution that submits it may be a later one. -/
theorem submitted_tree_origin {σ : Type} {s : Settings} {w : World σ Request Answer} {disk : σ → Disk}
    {service : Generation.Service} (hd : UsesDisk w disk) (hg : GeneratedBy service w) {st : σ}
    (hv : (disk st).Vacant s.store.directory) {p p' : Process σ Request Answer Controller}
    (hp : Process.Reachable w (Trigger s) st p) {number : Option Nat} {x : SnapshotSubmission}
    {options : TxOptions} (hstep : Process.Step w (Trigger s) p p')
    (hlog : p'.log = .sent number (.submit (.submitRewardSnapshot x) options) :: p.log) :
    ∃ n i t, number = some n ∧ x = t.submission x.merkleTreeCid ∧ t.header.index = i ∧
      .heard (some n) (.upload (Path.fileName (Store.compressedPath (s.store.treePath i)))
        (Zstd.compress (treeBytes t))) (.ok x.merkleTreeCid) ∈ p.log ∧
      ∃ m state reply, TreeOrigin s p.log i t m state reply := by
  obtain ⟨n, j, t, cid, hn, rfl, hholds⟩ := TreeOrigin.submitting_of_sent hd hg hv hp hstep hlog
  obtain ⟨_, _, huploaded⟩ := hholds.backed
  exact ⟨n, j.interval.index, t, hn, rfl, hholds.indexed, huploaded, TreeOrigin.of_vouched hp hholds.known⟩

/-! ### A node that becomes a member -/

namespace TreeOrigin

def observing (s : Settings) (j : Job) (reply : Generation.Reply) : List (Exchange Request Answer) :=
  [⟨.disk (.read (s.store.treePath j.interval.index)), .error .notFound⟩,
    ⟨.generate (j.request s), .ok reply⟩] ++
  (putting s (s.store.performancePath j.interval.index) (performanceBytes reply) ++
  putting s (s.store.treePath reply.tree.header.index) (treeBytes (withPerformance reply.tree unpublished)))

variable {s : Settings} {j : Job}

/-- With its tree in place the execution of a node that is no member is over. -/
theorem ends_observing (hj : j.isMember = false) (reply : Generation.Reply) :
    ∃ result, (j.execute s).run.Ends (observing s j reply) result := by
  obtain ⟨isMember, interval, intervalsPassed, target⟩ := j
  cases hj
  -- all but the last answer, after which nothing is asked any more
  have hasks : (Job.execute s ⟨false, interval, intervalsPassed, target⟩).run.Asks
      (observing s ⟨false, interval, intervalsPassed, target⟩ reply).dropLast
      (.disk (.rename (Store.temporaryPath (s.store.treePath reply.tree.header.index))
        (s.store.treePath reply.tree.header.index))) :=
    (asks_iff_admits _ _ _).mpr ⟨rfl, rfl, rfl, rfl, rfl, rfl, rfl, rfl⟩
  obtain ⟨r, hr⟩ := hasks.answered (.ok ())
  have hquiet : (script s ⟨false, interval, intervalsPassed, target⟩).Quiet .ended := nofun
  obtain ⟨result, hresult⟩ := (execute_follows.path hr).ends_of_quiet hquiet
  refine ⟨result, ?_⟩
  have hends := hr.trans hresult
  rw [List.append_nil] at hends
  exact hends

section

variable {answers : (q : Request) → Answer q} {reply : Generation.Reply} {cid : String} {hash : Digest}
  {d : Disk} {place : List String}

/-- An execution of a node that is no member can go through: its tree is stored with no identifier in it. -/
theorem serves_observing (h : Scene.Favourable answers s j reply cid hash) (ho : s.store.Open d place)
    (hmissing : d.read (s.store.treePath j.interval.index) = .error .notFound) :
    ∃ d', (Scene.world s.node answers).Serves ⟨d, []⟩ (observing s j reply) ⟨d', []⟩ ∧
      s.store.Open d' place ∧ d'.read (s.store.treePath reply.tree.header.index) =
        .ok (treeBytes (withPerformance reply.tree unpublished)) := by
  obtain ⟨d₁, hs₁, ho₁, _⟩ := Scene.serves_putting s.node answers ho
    (s.store.owns_performancePath j.interval.index) (performanceBytes reply) []
  obtain ⟨d₂, hs₂, ho₂, hread⟩ := Scene.serves_putting s.node answers ho₁
    (s.store.owns_treePath reply.tree.header.index)
    (treeBytes (withPerformance reply.tree unpublished)) []
  have hfirst := Scene.serves_generating s.node h hmissing []
  exact ⟨d₂, hfirst.append (hs₁.append hs₂), ho₂, hread⟩

/-- A tree that a node has stored while it was no member is submitted by it as it is when it has become one. -/
theorem joins (h : Scene.Favourable answers s j reply cid hash) (hj : j.isMember = false) {j' : Job}
    (hj' : j'.Covers j.interval.index reply.tree.header.intervalsPassed) {state state' : NetworkState}
    {u u' : List (Exchange Request Answer)} (hends : (launch s state).run.Ends u (.ok (some j)))
    (hends' : (launch s state').run.Ends u' (.ok (some j')))
    (hu : ∀ e ∈ u, Scene.Steady e.request ∧ e.answer = answers e.request)
    (hu' : ∀ e ∈ u', Scene.Steady e.request ∧ e.answer = answers e.request)
    (ho : s.store.Open d place)
    (hmissing : d.read (s.store.treePath j.interval.index) = .error .notFound) :
    ∃ p p', Process.Reachable (Scene.world s.node answers) (Trigger s) ⟨d, []⟩ p ∧
      Process.Step (Scene.world s.node answers) (Trigger s) p p' ∧
      p'.log = .sent (some 1) (.submit (.submitRewardSnapshot
        ((withPerformance reply.tree unpublished).submission cid)) (s.options 0)) :: p.log ∧
      .heard (some 1) (.upload (Path.fileName (Store.compressedPath (s.store.treePath j.interval.index)))
        (Zstd.compress (treeBytes (withPerformance reply.tree unpublished)))) (.ok cid) ∈ p.log := by
  have hquiet : ∀ line st, (Scene.world s.node answers).write line st = st := fun _ _ => rfl
  have hidle : Process.Reachable (Scene.world s.node answers) (Trigger s) ⟨d, []⟩
    ⟨Engine.idle ⟨d, []⟩, none, []⟩ := .refl
  -- the first execution stores the tree and ends
  obtain ⟨span, hfirst⟩ := Scene.starts_due hidle (SnapshotRequest.ends_run_of_launch hends) hu rfl
  obtain ⟨result, hobserved⟩ := ends_observing (s := s) hj reply
  obtain ⟨d', hserves, ho', hread⟩ := serves_observing h ho hmissing
  have hstored := Process.Reachable.finish hfirst hquiet hserves hobserved
  -- its lane is free, and the second one finds the tree
  have hfree : (Lanes.free ⟨SubmitRewards.name :: Lanes.empty.inFlight⟩ SubmitRewards.name).isTaken
      SubmitRewards.name = false := by
    simp [Lanes.isTaken_free]
  obtain ⟨span', hsecond⟩ :=
    Scene.starts_due hstored (SnapshotRequest.ends_run_of_launch hends') hu' hfree
  rw [h.index] at hread
  obtain ⟨r, hresumed⟩ := (asks_of_resuming (s := s) (t := withPerformance reply.tree unpublished) hj'
    cid).answered (.ok hash)
  obtain ⟨st', hserves'⟩ := Scene.serves_resuming s.node h ho' hread
  have hsubmitted := Process.Reachable.work hsecond hquiet hserves' hresumed
  obtain ⟨p, p', hp, hstep, hsent, hl⟩ := hsubmitted.sends (e := Scene.submission s _ cid hash) rfl
  refine ⟨p, p', hp, hstep, hsent, ?_⟩
  -- the upload is the last thing that was heard
  rw [hl]
  exact List.mem_append_left _ List.mem_cons_self

end

namespace Sample

open OracleDuty.Sample

def generating : Settings := { settings with treeMode := .generate }

def before : NetworkState := { state with members := [] }

theorem joined : ∃ p p', Process.Reachable world (Trigger generating) ⟨disk, []⟩ p ∧
    Process.Step world (Trigger generating) p p' ∧
    p'.log = .sent (some 1) (.submit (.submitRewardSnapshot
      ((withPerformance reply.tree unpublished).submission "bafybeigd")) (generating.options 0)) :: p.log ∧
    .heard (some 1) (.upload (Path.fileName (Store.compressedPath (generating.store.treePath 5)))
      (Zstd.compress (treeBytes (withPerformance reply.tree unpublished)))) (.ok "bafybeigd") ∈ p.log := by
  have hfavourable : Scene.Favourable answers generating { job with isMember := false } reply
      "bafybeigd" 1 := ⟨rfl, rfl, fun _ _ => rfl, fun _ _ => rfl⟩
  -- the node joins the others between the two rounds
  have hends : (launch generating before).run.Ends asked (.ok (some { job with isMember := false })) :=
    SnapshotRequest.ends_launch_of_due (p := ⟨95, 2, 3⟩) (.inr rfl) rfl (by decide) rfl rfl (by decide) 1
      (by decide) ⟨94, 1094⟩
  have hends' : (launch generating state).run.Ends asked (.ok (some job)) :=
    SnapshotRequest.ends_launch_of_due (p := ⟨95, 2, 3⟩) (.inr rfl) rfl (by decide) rfl rfl (by decide) 1
      (by decide) ⟨94, 1094⟩
  have hcovers : job.Covers 5 1 := ⟨rfl, rfl, rfl⟩
  exact joins hfavourable rfl hcovers hends hends' steady steady opened missing

end Sample

end TreeOrigin

open Sample TreeOrigin.Sample in
theorem submitted_tree_origin_sample : ∃ p x i t n state reply,
    Process.Reachable world (Trigger generating) ⟨disk, []⟩ p ∧ x = t.submission x.merkleTreeCid ∧
    .heard (some 1) (.upload (Path.fileName (Store.compressedPath (generating.store.treePath i)))
      (Zstd.compress (treeBytes t))) (.ok x.merkleTreeCid) ∈ p.log ∧
    TreeOrigin generating p.log i t n state reply := by
  obtain ⟨p, p', hp, hstep, hlog, _⟩ := joined
  obtain ⟨n, i, t, hn, hx, _, huploaded, m, state, reply, horigin⟩ :=
    submitted_tree_origin Scene.usesDisk generatedBy vacant hp hstep hlog
  cases hn
  exact ⟨p, _, i, t, m, state, reply, hp, hx, huploaded, horigin⟩

open Sample TreeOrigin.Sample in
/-- A tree without an identifier of its performance file is submitted by a node that became a member after it
had stored the tree, although no upload was ever answered that way. -/
theorem unpublished_submitted : ∃ p p' x t,
    Process.Reachable world (Trigger generating) ⟨disk, []⟩ p ∧
    Process.Step world (Trigger generating) p p' ∧
    p'.log = .sent (some 1) (.submit (.submitRewardSnapshot x) (generating.options 0)) :: p.log ∧
    x = t.submission x.merkleTreeCid ∧
    .heard (some 1) (.upload (Path.fileName (Store.compressedPath (generating.store.treePath 5)))
      (Zstd.compress (treeBytes t))) (.ok x.merkleTreeCid) ∈ p.log ∧
    t.header.minipoolPerformanceFileCid = "---" ∧
    ∀ number file content cid, .heard number (.upload file content) (.ok cid) ∈ p.log → cid ≠ "---" := by
  obtain ⟨p, p', hp, hstep, hlog, huploaded⟩ := joined
  refine ⟨p, p', _, _, hp, hstep, hlog, rfl, huploaded, rfl, ?_⟩
  intro number file content cid hheard
  obtain ⟨p₀, st', _, ha⟩ := hp.answered hheard
  cases ha
  decide

end OracleDuty
