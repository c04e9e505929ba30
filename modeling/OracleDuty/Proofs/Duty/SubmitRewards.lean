import OracleDuty.Duty.SubmitRewards
import OracleDuty.Proofs.Duty.Writing
/-!
The phases of a rewards execution: what it asks in each, and the phase that an answer leads to.

Main statement: `execute_follows`, by which every request of an execution is the one of its phase.
-/
namespace OracleDuty.Duty.SubmitRewards

inductive Errand where
  | performance (reply : Generation.Reply)
  | packedPerformance (reply : Generation.Reply)
  | tree (tree : RewardsTree)
  | packedTree (tree : RewardsTree)

inductive Phase where
  | reading
  | generating
  | creating (e : Errand)
  | writing (e : Errand)
  | placing (e : Errand)
  | uploadingPerformance (reply : Generation.Reply)
  | checking (tree : RewardsTree)
  | uploadingTree (tree : RewardsTree)
  | submitting (tree : RewardsTree) (cid : String)
  | ended

/-- The bytes of a tree as they are stored. -/
def treeBytes (t : RewardsTree) : Bytes := Bytes.ofString t.encode

def performanceBytes (r : Generation.Reply) : Bytes := Bytes.ofString r.performance.render

def withPerformance (t : RewardsTree) (cid : String) : RewardsTree :=
  { t with header := { t.header with minipoolPerformanceFileCid := cid } }

namespace Errand

def path (s : Settings) (j : Job) : Errand → Path
  | performance _ => s.store.performancePath j.interval.index
  | packedPerformance _ => Store.compressedPath (s.store.performancePath j.interval.index)
  | tree t => s.store.treePath t.header.index
  | packedTree _ => Store.compressedPath (s.store.treePath j.interval.index)

def content : Errand → Bytes
  | performance r => performanceBytes r
  | packedPerformance r => Zstd.compress (performanceBytes r)
  | tree t => treeBytes t
  | packedTree t => Zstd.compress (treeBytes t)

end Errand

namespace Phase

/-- A member goes on to attest a tree; for others the execution is over. -/
def attesting (j : Job) (t : RewardsTree) : Phase := if j.isMember then checking t else ended

def stored (j : Job) : Errand → Phase
  | .performance r =>
    if j.isMember then creating (.packedPerformance r)
    else creating (.tree (withPerformance r.tree unpublished))
  | .packedPerformance r => uploadingPerformance r
  | .tree t => attesting j t
  | .packedTree t => uploadingTree t

def request? (s : Settings) (j : Job) : Phase → Option Request
  | reading => some (.disk (.read (s.store.treePath j.interval.index)))
  | generating => some (.generate (j.request s))
  | creating _ => some (.disk (.createDirectories s.store.directory))
  | writing e => some (.disk (.write (Store.temporaryPath (e.path s j)) e.content))
  | placing e => some (.disk (.rename (Store.temporaryPath (e.path s j)) (e.path s j)))
  | uploadingPerformance r => some (.upload
      (Path.fileName (Store.compressedPath (s.store.performancePath j.interval.index)))
      (Zstd.compress (performanceBytes r)))
  | checking _ => some (.flag
      (Submission.key .rewardsSnapshot s.node (RewardsTree.word j.interval.index) none) none)
  | uploadingTree t => some (.upload
      (Path.fileName (Store.compressedPath (s.store.treePath j.interval.index)))
      (Zstd.compress (treeBytes t)))
  | submitting t cid => some (.submit (.submitRewardSnapshot (t.submission cid)) (s.options 0))
  | ended => none

def found (j : Job) : Except Disk.Fault Bytes → Phase
  | .ok content =>
    match Store.decode? content with
    | some t => if t.header.intervalsPassed = j.intervalsPassed then attesting j t else generating
    | none => generating
  | .error _ => generating

/-- The phase that an answer leads to. A request that fails ends the execution, except for the first. -/
def next (j : Job) : Phase → (q : Request) → Answer q → Phase
  | reading, .disk (.read _), r => found j r
  | generating, .generate _, .ok reply => creating (.performance reply)
  | creating e, .disk (.createDirectories _), .ok _ => writing e
  | writing e, .disk (.write _ _), .ok _ => placing e
  | placing e, .disk (.rename _ _), .ok _ => stored j e
  | uploadingPerformance r, .upload _ _, .ok cid => creating (.tree (withPerformance r.tree cid))
  | checking t, .flag _ _, .ok false => creating (.packedTree t)
  | uploadingTree t, .upload _ _, .ok cid => submitting t cid
  | _, _, _ => ended

end Phase

def script (s : Settings) (j : Job) : Script Request Answer Phase where
  asks m q := m.request? s j = some q
  next := Phase.next j

/-! ### Executions follow their script -/

variable {s : Settings} {j : Job}

def Errand.phase (j : Job) (e : Errand) : Store.Step → Phase
  | .creating => .creating e
  | .writing => .writing e
  | .placing => .placing e
  | .placed => Phase.stored j e
  | .refused => .ended

/-- A file goes into its place by the steps of the store, and a refusal ends the execution. -/
theorem writeAtomic_guides (e : Errand) :
    (script s j).Guides (.creating e) (s.store.writeAtomic (e.path s j) e.content) (· = .ended)
      fun m _ => m = Phase.stored j e := by
  have hasks : ∀ m q, (s.store.writing (e.path s j) e.content).asks m q →
      (script s j).asks (e.phase j m) q := by
    intro m q hq
    cases m with
    | placed => nomatch hq
    | refused => nomatch hq
    | _ => exact hq
  have hnext : ∀ m q a, (s.store.writing (e.path s j) e.content).asks m q →
      (script s j).next (e.phase j m) q a =
        e.phase j ((s.store.writing (e.path s j) e.content).next m q a) := by
    intro m q a hq
    cases m with
    | placed => nomatch hq
    | refused => nomatch hq
    | _ =>
      cases hq
      rcases a with fault | u
      · rfl
      · rfl
  refine ((Store.writeAtomic_guides s.store (e.path s j) e.content).map hasks hnext).mono ?_
  rintro _ (fault | u) ⟨m, rfl, rfl⟩
  · rfl
  · rfl

theorem writeTree_guides (t : RewardsTree) :
    (script s j).Guides (.creating (.tree t)) (s.store.writeTree t) (· = .ended)
      fun m content => m = Phase.attesting j t ∧ content = treeBytes t := by
  unfold Store.writeTree
  rw [guides_bind]
  exact (writeAtomic_guides (.tree t)).mono (fun _ h => h) fun m _ h => ⟨h, rfl⟩

theorem writePerformance_guides (r : Generation.Reply) :
    (script s j).Guides (.creating (.performance r))
      (s.store.writePerformance j.interval.index r.performance) (· = .ended)
      fun m content => m = Phase.stored j (.performance r) ∧ content = performanceBytes r := by
  unfold Store.writePerformance
  rw [guides_bind]
  exact (writeAtomic_guides (.performance r)).mono (fun _ h => h) fun m _ h => ⟨h, rfl⟩

/-- Publishing a content goes through the errand that puts its compressed form beside it. -/
theorem publish_guides {e : Errand} {path : Path} {content : Bytes} {published : String → Phase}
    (hpath : e.path s j = Store.compressedPath path) (hcontent : e.content = Zstd.compress content)
    (hq : (script s j).asks (Phase.stored j e)
      (.upload (Path.fileName (Store.compressedPath path)) (Zstd.compress content)))
    (hok : ∀ cid, (script s j).next (Phase.stored j e)
      (.upload (Path.fileName (Store.compressedPath path)) (Zstd.compress content)) (.ok cid) =
        published cid)
    (hfail : ∀ fault, (script s j).next (Phase.stored j e)
      (.upload (Path.fileName (Store.compressedPath path)) (Zstd.compress content)) (.error fault) =
        .ended) :
    (script s j).Guides (.creating e) (Job.publish s path content) (· = .ended)
      fun m cid => m = published cid := by
  have hwrite := writeAtomic_guides (s := s) (j := j) e
  rw [hpath, hcontent] at hwrite
  rw [Job.publish, Store.writeCompressed_eq, guides_bind, guides_bind]
  refine hwrite.mono (fun _ h => h) ?_
  rintro _ _ rfl
  rw [guides_bind, guides_log, guides_pure, guides_bind, guides_withCause]
  refine ⟨hq, ?_⟩
  rintro (fault | cid)
  · exact hfail fault
  · exact hok cid

theorem publish_performance_guides (r : Generation.Reply) :
    (script s j).Guides (.creating (.packedPerformance r))
      (Job.publish s (s.store.performancePath j.interval.index) (performanceBytes r)) (· = .ended)
      fun m cid => m = .creating (.tree (withPerformance r.tree cid)) :=
  publish_guides rfl rfl rfl (fun _ => rfl) fun _ => rfl

theorem publish_tree_guides (t : RewardsTree) :
    (script s j).Guides (.creating (.packedTree t))
      (Job.publish s (s.store.treePath j.interval.index) (treeBytes t)) (· = .ended)
      fun m cid => m = .submitting t cid :=
  publish_guides rfl rfl rfl (fun _ => rfl) fun _ => rfl

/-- A tree is in hand once it was generated, and its performance file stored and, by a member, published. -/
theorem generate_guides :
    (script s j).Guides .generating (j.generate s) (· = .ended) fun m t => m = .creating (.tree t) := by
  have hreply : (script s j).Guides .generating ((Action.withCause .generation
      (Program.request (Request.generate (j.request s)))).noting
        s!"Failed to generate rewards tree for interval {j.interval.index}") (· = .ended)
      fun m reply => m = .creating (.performance reply) := by
    rw [guides_noting, guides_withCause]
    refine ⟨rfl, ?_⟩
    rintro (e | reply)
    · rfl
    · rfl
  -- how the work goes on, whether or not several intervals have passed
  have hrest : ∀ m reply, m = .creating (.performance reply) → (script s j).Guides m
      (do
        let performance ← s.store.writePerformance j.interval.index reply.performance
        let cid ←
          if j.isMember then Job.publish s (s.store.performancePath j.interval.index) performance
          else pure unpublished
        return withPerformance reply.tree cid) (· = .ended) fun m t => m = .creating (.tree t) := by
    rintro _ reply rfl
    dsimp only
    rw [guides_bind]
    refine (writePerformance_guides reply).mono (fun _ h => h) ?_
    rintro _ _ ⟨rfl, rfl⟩
    by_cases hm : j.isMember = true
    · simp only [hm, if_true, Phase.stored]
      rw [guides_bind]
      exact (publish_performance_guides reply).mono (fun _ h => h) fun _ _ h => h
    · simp only [hm, Phase.stored, if_false, Bool.false_eq_true]
      exact guides_pure.mpr rfl
  dsimp only [Job.generate]
  split
  · rw [guides_bind, guides_log, guides_bind, guides_log, guides_bind]
    exact hreply.mono (fun _ h => h) hrest
  · rw [guides_bind, guides_log, guides_bind]
    exact hreply.mono (fun _ h => h) hrest

/-- A tree whose submission is recorded is not published. -/
theorem alreadySubmitted_guides (t : RewardsTree) :
    (script s j).Guides (.checking t) (j.alreadySubmitted s) (· = .ended)
      fun m submitted => m = if submitted then .ended else .creating (.packedTree t) := by
  unfold Job.alreadySubmitted Ledger.hasSubmitted
  rw [guides_bind, guides_noting]
  refine ⟨rfl, ?_⟩
  rintro (e | _ | _)
  · rfl
  · rfl
  · rfl

/-- A tree is submitted under the identifier that its upload was answered with. -/
theorem publishAndSubmit_guides (t : RewardsTree) :
    (script s j).Guides (.creating (.packedTree t)) (j.publishAndSubmit s t (treeBytes t)) (· = .ended)
      fun m _ => m = .ended := by
  unfold Job.publishAndSubmit
  rw [guides_bind]
  refine (publish_tree_guides t).mono (fun _ h => h) ?_
  rintro _ cid rfl
  rw [guides_bind, guides_noting]
  refine ⟨rfl, ?_⟩
  rintro (e | hash)
  · rfl
  · rfl

/-- Only a member checks, publishes and submits. -/
theorem attest_guides (t : RewardsTree) :
    (script s j).Guides (Phase.attesting j t) (j.attest s t (treeBytes t)) (· = .ended)
      fun m _ => m = .ended := by
  unfold Job.attest Phase.attesting
  by_cases hm : j.isMember = true
  · simp only [hm, if_true, Bool.not_true, Bool.false_eq_true, if_false]
    rw [guides_bind]
    refine (alreadySubmitted_guides t).mono (fun _ h => h) ?_
    rintro _ (_ | _) rfl
    · exact publishAndSubmit_guides t
    · exact guides_pure.mpr rfl
  · simp only [hm, Bool.not_false, if_true, if_false, Bool.false_eq_true]
    exact guides_pure.mpr rfl

/-- A stored tree that can be used again is attested as it is, and for any other one the generator is asked. -/
theorem loadValid_follows :
    (Store.loadValid (s.store.treePath j.interval.index) j.intervalsPassed).Follows (script s j) .reading
      fun m r => m = match r with
        | some t => Phase.attesting j t
        | none => .generating := by
  refine ⟨rfl, ?_⟩
  rintro (fault | content)
  · cases fault <;> rfl
  · change Program.Follows _ _ (Phase.found j (.ok content)) _
    simp only [Phase.found, Program.follows_bind, Program.follows_done]
    cases hd : Store.decode? content with
    | none => rfl
    | some t =>
      by_cases hk : t.header.intervalsPassed = j.intervalsPassed
      · simp only [hk, if_true]
        rfl
      · simp only [hk, if_false]
        rfl

/-- An execution asks in each phase the request of the phase, and ends when it is over. -/
theorem execute_follows : (j.execute s).run.Follows (script s j) .reading fun m _ => m = .ended := by
  have h : (script s j).Guides .reading (j.execute s) (· = .ended) fun m _ => m = .ended := by
    dsimp only [Job.execute]
    rw [guides_bind, guides_lift]
    refine loadValid_follows.mono ?_
    rintro _ (_ | t) rfl
    · -- a tree is generated and stored
      rw [guides_bind]
      refine generate_guides.mono (fun _ h => h) ?_
      rintro _ t rfl
      rw [guides_bind]
      refine (writeTree_guides t).mono (fun _ h => h) ?_
      rintro _ _ ⟨rfl, rfl⟩
      rw [guides_bind, guides_log]
      exact attest_guides t
    · -- the stored tree is used again
      rw [guides_bind, guides_log]
      exact attest_guides t
  refine Program.Follows.mono h ?_
  intro m r hr
  cases r <;> exact hr

/-- What an execution asks is what its script admits. -/
theorem asks_iff_admits (j : Job) (t : List (Exchange Request Answer)) (q : Request) :
    (j.execute s).run.Asks t q ↔ (script s j).Admits .reading t q := by
  apply Program.Follows.asks_iff
  · refine execute_follows.mono ?_
    rintro _ _ rfl q hq
    cases hq
  · -- each phase has one request
    intro m q q' h h'
    exact Option.some.inj (h.symm.trans h')

/-! ### From phase to phase -/

/-- All that an answer can lead to, one case for each phase; an execution may be over after any answer. -/
inductive Phase.Goes (s : Settings) (j : Job) : Phase → (q : Request) → Answer q → Phase → Prop where
  | found {content : Bytes} {t : RewardsTree} (hd : Store.decode? content = some t)
    (hk : t.header.intervalsPassed = j.intervalsPassed) :
    Goes s j .reading (.disk (.read (s.store.treePath j.interval.index))) (.ok content)
      (Phase.attesting j t)
  | missing {r : Except Disk.Fault Bytes} (hr : ∀ content t, r = .ok content →
      Store.decode? content = some t → t.header.intervalsPassed ≠ j.intervalsPassed) :
    Goes s j .reading (.disk (.read (s.store.treePath j.interval.index))) r .generating
  | generated (reply : Generation.Reply) :
    Goes s j .generating (.generate (j.request s)) (.ok reply) (.creating (.performance reply))
  | created (e : Errand) :
    Goes s j (.creating e) (.disk (.createDirectories s.store.directory)) (.ok ()) (.writing e)
  | written (e : Errand) : Goes s j (.writing e)
    (.disk (.write (Store.temporaryPath (e.path s j)) e.content)) (.ok ()) (.placing e)
  | placed (e : Errand) : Goes s j (.placing e)
    (.disk (.rename (Store.temporaryPath (e.path s j)) (e.path s j))) (.ok ()) (Phase.stored j e)
  | published (r : Generation.Reply) (file : String) (content : Bytes) (cid : String) :
    Goes s j (.uploadingPerformance r) (.upload file content) (.ok cid)
      (.creating (.tree (withPerformance r.tree cid)))
  | unrecorded (t : RewardsTree) : Goes s j (.checking t) (.flag
      (Submission.key .rewardsSnapshot s.node (RewardsTree.word j.interval.index) none) none) (.ok false)
      (.creating (.packedTree t))
  | uploaded (t : RewardsTree) (cid : String) : Goes s j (.uploadingTree t) (.upload
      (Path.fileName (Store.compressedPath (s.store.treePath j.interval.index)))
      (Zstd.compress (treeBytes t))) (.ok cid) (.submitting t cid)
  | ended {m : Phase} {q : Request} {a : Answer q} (hq : (script s j).asks m q) : Goes s j m q a .ended

/-- What was read in the place of the tree leads to one of two phases. -/
theorem goes_found {r : Except Disk.Fault Bytes} :
    Phase.Goes s j .reading (.disk (.read (s.store.treePath j.interval.index))) r (Phase.found j r) := by
  rcases r with fault | content
  · exact .missing (by simp)
  · simp only [Phase.found]
    cases hd : Store.decode? content with
    | none =>
      refine .missing ?_
      rintro _ t ⟨⟩ ht
      cases hd.symm.trans ht
    | some t =>
      by_cases hk : t.header.intervalsPassed = j.intervalsPassed
      · simp only [hk, if_true]
        exact .found hd hk
      · simp only [hk, if_false]
        refine .missing ?_
        rintro _ t' ⟨⟩ ht'
        cases hd.symm.trans ht'
        exact hk

/-- The list of what answers can lead to is complete. -/
theorem goes_next {m : Phase} {q : Request} (hq : (script s j).asks m q) (a : Answer q) :
    Phase.Goes s j m q a ((script s j).next m q a) := by
  cases m with
  | reading =>
    cases hq
    exact goes_found
  | generating =>
    cases hq
    rcases a with e | reply
    · exact .ended rfl
    · exact .generated reply
  | creating e =>
    cases hq
    rcases a with fault | u
    · exact .ended rfl
    · exact .created e
  | writing e =>
    cases hq
    rcases a with fault | u
    · exact .ended rfl
    · exact .written e
  | placing e =>
    cases hq
    rcases a with fault | u
    · exact .ended rfl
    · exact .placed e
  | uploadingPerformance r =>
    cases hq
    rcases a with e | cid
    · exact .ended rfl
    · exact .published r _ _ cid
  | checking t =>
    cases hq
    rcases a with e | _ | _
    · exact .ended rfl
    · exact .unrecorded t
    · exact .ended rfl
  | uploadingTree t =>
    cases hq
    rcases a with e | cid
    · exact .ended rfl
    · exact .uploaded t cid
  | submitting t cid =>
    cases hq
    rcases a with e | hash
    · exact .ended rfl
    · exact .ended rfl
  | ended => nomatch hq

theorem attesting_cases {motive : Phase → Prop} {t : RewardsTree} (hmember : motive (.checking t))
    (hother : motive .ended) : motive (Phase.attesting j t) := by
  unfold Phase.attesting
  split
  · exact hmember
  · exact hother

theorem stored_performance_cases {motive : Phase → Prop} {r : Generation.Reply}
    (hmember : motive (.creating (.packedPerformance r)))
    (hother : motive (.creating (.tree (withPerformance r.tree unpublished)))) :
    motive (Phase.stored j (.performance r)) := by
  simp only [Phase.stored]
  split
  · exact hmember
  · exact hother

theorem asks_submit {m : Phase} {call : Call} {options : TxOptions}
    (hq : (script s j).asks m (.submit call options)) : ∃ t cid, m = .submitting t cid ∧
      call = .submitRewardSnapshot (t.submission cid) ∧ options = s.options 0 := by
  cases m with
  | submitting t cid =>
    cases hq
    exact ⟨t, cid, rfl, rfl, rfl⟩
  | _ => nomatch hq

/-! ### Trees of the interval -/

def Errand.Indexed (i : UInt64) : Errand → Prop
  | performance r => r.tree.header.index = i
  | packedPerformance r => r.tree.header.index = i
  | tree t => t.header.index = i
  | packedTree t => t.header.index = i

def Phase.Indexed (i : UInt64) : Phase → Prop
  | creating e => e.Indexed i
  | writing e => e.Indexed i
  | placing e => e.Indexed i
  | uploadingPerformance r => r.tree.header.index = i
  | checking t => t.header.index = i
  | uploadingTree t => t.header.index = i
  | submitting t _ => t.header.index = i
  | _ => True

def Honest (i : UInt64) : (q : Request) → Answer q → Prop
  | .disk (.read _), .ok content => ∀ t, Store.decode? content = some t → t.header.index = i
  | .generate _, .ok reply => reply.tree.header.index = i
  | _, _ => True

theorem indexed_attesting {i : UInt64} {t : RewardsTree} (h : t.header.index = i) :
    (Phase.attesting j t).Indexed i :=
  attesting_cases (motive := Phase.Indexed i) h trivial

theorem indexed_stored {i : UInt64} {e : Errand} (h : e.Indexed i) : (Phase.stored j e).Indexed i := by
  cases e with
  | performance r => exact stored_performance_cases (motive := Phase.Indexed i) h h
  | packedPerformance r => exact h
  | tree t => exact indexed_attesting h
  | packedTree t => exact h

/-- The tree in hand stays one of the interval as long as no answer brings another. -/
theorem Phase.Goes.indexed {i : UInt64} {m m' : Phase} {q : Request} {a : Answer q}
    (h : Phase.Goes s j m q a m') (hm : m.Indexed i) (ha : Honest i q a) : m'.Indexed i := by
  cases h with
  | found hd => exact indexed_attesting (ha _ hd)
  | missing => trivial
  | generated reply => exact ha
  | placed e => exact indexed_stored hm
  | ended => trivial
  | _ => exact hm

end OracleDuty.Duty.SubmitRewards
