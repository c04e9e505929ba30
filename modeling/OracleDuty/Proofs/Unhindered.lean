import OracleDuty.Proofs.Duty.Files
import OracleDuty.Proofs.Engine
import OracleDuty.Proofs.SnapshotRequest
import OracleDuty.Proofs.Ticket
/-!
What comes about when nothing fails: in a world that carries out what it is asked, a tree that is due is built
and stored by a member; and if the process is stopped then and started again, the stored tree is submitted.

Main statement: `Scene.resumes`.
-/
namespace OracleDuty

open Duty Duty.SubmitRewards

/-! ### Tasks -/

section

variable {Q : Type} {A : Q → Type} {α : Type}

theorem asForeground_path {p r : Program Q A α} {t : List (Exchange Q A)} (h : p.Path t r) :
    (Controller.asForeground p).Path (t.map Process.asked) (Controller.asForeground r) := by
  induction h with
  | refl p => exact .refl _
  | note _ ih => exact .note ih
  | ask _ ih => exact .ask ih

/-- A task that calls for work has it started. -/
theorem runTask_ends {t : Task Q A} {state : NetworkState} {u : List (Exchange Q A)} {b : Background Q A}
    (h : (t.run state).run.Ends u (.ok (some b))) :
    (Controller.runTask state t).Ends
      (u.map Process.asked ++ [⟨.start (Controller.span t.name state.block) b, true⟩]) () := by
  have hlaunch : (Controller.launch t (Controller.span t.name state.block) state).Ends
      (u.map Process.asked ++ [⟨.start (Controller.span t.name state.block) b, true⟩]) (.ok ()) := by
    refine Program.ends_bind.mpr ⟨.ok (some b), _, _, rfl, ?_, .ask (.refl _)⟩
    exact (asForeground_path h).within _
  refine .note (Program.ends_bind.mpr ⟨(), [], _, rfl, .refl _, ?_⟩)
  exact Program.ends_bind.mpr ⟨.ok (), _, [], (List.append_nil _).symm, hlaunch, .refl _⟩

/-- A task that calls for no work has none started. -/
theorem runTask_ends_of_none {t : Task Q A} {state : NetworkState} {u : List (Exchange Q A)}
    (h : (t.run state).run.Ends u (.ok none)) :
    (Controller.runTask state t).Ends (u.map Process.asked) () := by
  have hlaunch : (Controller.launch t (Controller.span t.name state.block) state).Ends
      (u.map Process.asked) (.ok ()) := by
    refine Program.ends_bind.mpr ⟨.ok none, _, [], (List.append_nil _).symm, ?_, .refl _⟩
    exact (asForeground_path h).within _
  refine .note (Program.ends_bind.mpr ⟨(), [], _, rfl, .refl _, ?_⟩)
  exact Program.ends_bind.mpr ⟨.ok (), _, [], (List.append_nil _).symm, hlaunch, .refl _⟩

theorem runTasks_ends {t : Task Q A} {rest : List (Task Q A)} {state : NetworkState}
    {u v : List (Exchange (Command Q A) Command.Answer)} (h : (Controller.runTask state t).Ends u ())
    (hrest : (Controller.runTasks state rest).Ends v ()) :
    (Controller.runTasks state (t :: rest)).Ends (u ++ v) () :=
  Program.ends_bind.mpr ⟨(), u, v, rfl, h, hrest⟩

/-- A tick that meets a new block runs the tasks for it. -/
theorem tick_ends {c : Controller} {load : ExceptT Report (Program Q A) NetworkState}
    {tasks : List (Task Q A)} {state : NetworkState} {u : List (Exchange Q A)}
    {v : List (Exchange (Command Q A) Command.Answer)} (hload : load.run.Ends u (.ok state))
    (hnew : c.isNew state.block = true) (htasks : (Controller.runTasks state tasks).Ends v ()) :
    (c.tick load tasks).Ends (u.map Process.asked ++ v) ⟨some state.block⟩ := by
  refine Program.ends_bind.mpr ⟨.ok state, _, v, rfl, asForeground_path hload, ?_⟩
  dsimp only
  rw [if_pos hnew]
  refine .note (Program.ends_bind.mpr ⟨(), [], v, rfl, .refl _, ?_⟩)
  exact Program.ends_bind.mpr ⟨(), v, [], (List.append_nil v).symm, htasks, .refl _⟩

/-- A task that is served by other programs comes to the same. -/
theorem serve_task_ends {W : Type} {B : W → Type} {f : (q : Q) → Program W B (A q)}
    {wired : Exchange Q A → List (Exchange W B)} (t : Task Q A) {state : NetworkState}
    {u : List (Exchange Q A)} {o : Option (Background Q A)} (h : (t.run state).run.Ends u (.ok o))
    (hf : ∀ e ∈ u, (f e.request).Ends (wired e) e.answer) :
    ((t.serve f).run state).run.Ends (u.flatMap wired) (.ok (o.map (Background.serve f))) :=
  Program.ends_bind.mpr ⟨.ok o, _, [], (List.append_nil _).symm, Program.Path.serve h hf, .refl _⟩

end

/-- A round in which there is nothing to do but a rewards tree. -/
theorem Duty.round_ends {W : Type} {B : W → Type} {f : (q : Request) → Program W B (Answer q)}
    {wired : Exchange Request Answer → List (Exchange W B)} {s : Settings}
    {state : NetworkState} {u : List (Exchange Request Answer)} {b : Background Request Answer}
    (hrelay : (RelayPrices.run s state).run.Ends [] (.ok ()))
    (hprices : (SubmitPrices.run s state).run.Ends [] (.ok none))
    (hrewards : (SubmitRewards.run s state).run.Ends u (.ok (some b)))
    (hf : ∀ e ∈ u, (f e.request).Ends (wired e) e.answer) :
    (Controller.runTasks state ((tasks s).map (Task.serve f))).Ends ((u.flatMap wired).map Process.asked ++
      [⟨.start (Controller.span SubmitRewards.name state.block) (Background.serve f b), true⟩]) () := by
  have hquiet : ∀ e ∈ ([] : List (Exchange Request Answer)), (f e.request).Ends (wired e) e.answer :=
    List.forall_mem_nil _
  have hnone : (RelayPrices.run s state >>= fun _ => pure none).run.Ends []
      (.ok (none : Option (Background Request Answer))) :=
    ends_run_bind.mpr ⟨(), [], [], rfl, hrelay, .refl _⟩
  obtain ⟨relay, prices, rewards, htasks, hr, hp, hw⟩ : ∃ relay prices rewards : Task Request Answer,
      tasks s = [relay, prices, rewards] ∧ (relay.run state).run.Ends [] (.ok none) ∧
      (prices.run state).run.Ends [] (.ok none) ∧ rewards = ⟨SubmitRewards.name, SubmitRewards.run s⟩ :=
    ⟨_, _, _, rfl, hnone, hprices, rfl⟩
  rw [htasks]
  have hfirst : (Controller.runTask state (relay.serve f)).Ends [] () :=
    runTask_ends_of_none (serve_task_ends relay hr hquiet)
  have hsecond : (Controller.runTask state (prices.serve f)).Ends [] () :=
    runTask_ends_of_none (serve_task_ends prices hp hquiet)
  have hthird : (Controller.runTask state (rewards.serve f)).Ends ((u.flatMap wired).map Process.asked ++
      [⟨.start (Controller.span SubmitRewards.name state.block) (Background.serve f b), true⟩]) () := by
    subst hw
    exact runTask_ends (serve_task_ends ⟨SubmitRewards.name, SubmitRewards.run s⟩ hrewards hf)
  have hlast : (Controller.runTasks state ([] : List (Task W B))).Ends [] () := .refl _
  have hround := runTasks_ends hfirst (runTasks_ends hsecond (runTasks_ends hthird hlast))
  rw [List.append_nil] at hround
  exact hround

/-! ### The world of a node -/

structure Scene where
  disk : Disk
  flags : List Digest

namespace Scene

def record (node : Address) (call : Call) (st : Scene) : Scene :=
  match call.ticket? with
  | some τ => { st with flags := τ.key node :: st.flags }
  | none => st

/-- Requests of the disk are carried out, flags are read as they are set, and accepted calls are recorded.
All else is answered by what is given. -/
def answer (node : Address) (answers : (q : Request) → Answer q) :
    (q : Request) → Scene → Reply (Answer q) × Scene
  | .disk r, st => (.answer (st.disk.perform r).1, { st with disk := (st.disk.perform r).2 })
  | .flag key none, st => (.answer (.ok (st.flags.contains key)), st)
  | .submit call options, st =>
    match answers (.submit call options) with
    | .ok hash => (.answer (.ok hash), st.record node call)
    | .error e => (.answer (.error e), st)
  | q, st => (.answer (answers q), st)

def world (node : Address) (answers : (q : Request) → Answer q) : World Scene Request Answer where
  write _ st := st
  accept _ st := (true, st)
  answer := answer node answers

variable {node : Address} {answers : (q : Request) → Answer q}

def Steady : Request → Prop
  | .disk _ => False
  | .flag _ none => False
  | .submit .. => False
  | _ => True

/-- A steady request is answered by what is given. -/
theorem answer_of_steady {q : Request} (h : Steady q) (st : Scene) :
    answer node answers q st = (.answer (answers q), st) := by
  cases q with
  | disk r => exact h.elim
  | flag key block =>
    cases block with
    | none => exact h.elim
    | some block => rfl
  | submit call options => exact h.elim
  | _ => rfl

/-- No request ends an execution. -/
theorem answer_ne_panic {q : Request} {st st' : Scene} {reason : Option String} :
    answer node answers q st ≠ (.panic reason, st') := by
  by_cases h : Steady q
  · rw [answer_of_steady h]
    exact nofun
  · cases q with
    | disk r => exact nofun
    | flag key block =>
      cases block with
      | none => exact nofun
      | some block => exact absurd trivial h
    | submit call options =>
      rw [answer]
      split <;> exact nofun
    | _ => exact absurd trivial h

theorem record_disk (call : Call) (st : Scene) : (st.record node call).disk = st.disk := by
  unfold record
  split <;> rfl

/-- Only requests of the disk are of consequence to it. -/
theorem answer_disk {q : Request} (h : ∀ r, q ≠ .disk r) (st : Scene) :
    (answer node answers q st).2.disk = st.disk := by
  by_cases hs : Steady q
  · rw [answer_of_steady hs]
  · cases q with
    | disk r => exact absurd rfl (h r)
    | flag key block =>
      cases block with
      | none => rfl
      | some block => exact absurd trivial hs
    | submit call options =>
      rw [answer]
      split
      · exact record_disk call st
      · rfl
    | _ => exact absurd trivial hs

/-- The disk of the scene changes by requests to it and by nothing else. -/
theorem usesDisk : UsesDisk (world node answers) Scene.disk where
  aside := by
    intro st st' act hm ha
    cases hm with
    | @hear q a _ _ h =>
      have hanswer : answer node answers q st = (.answer a, st') := h
      rw [← answer_disk ha st, hanswer]
    | panic h => exact absurd h answer_ne_panic
    | _ => rfl
  leaves := by
    intro st st' act r hm ha
    cases hm with
    | @hear q a _ _ h =>
      have hq : q = .disk r := ha
      subst hq
      cases h
      exact .carriedOut r
    | panic h => exact absurd h answer_ne_panic
    | _ => exact .untouched r
  carriesOut := by
    intro st st' r x h
    obtain ⟨hx, rfl⟩ := Prod.mk.injEq .. ▸ h
    injection hx with hx
    exact Prod.ext hx rfl

theorem readsDisk : ReadsDisk (world node answers) Scene.disk := by
  intro st st' path r h
  cases h
  rfl

/-- A flag that is set stays set. -/
theorem contains_answer {q : Request} {st : Scene} {key : Digest} (h : st.flags.contains key = true) :
    (answer node answers q st).2.flags.contains key = true := by
  by_cases hs : Steady q
  · rw [answer_of_steady hs]
    exact h
  · cases q with
    | disk r => exact h
    | flag k block =>
      cases block with
      | none => exact h
      | some block => exact absurd trivial hs
    | submit call options =>
      rw [answer]
      split
      · unfold record
        split
        · rw [List.contains_cons, h, Bool.or_true]
        · exact h
      · exact h
    | _ => exact absurd trivial hs

theorem answers_of_generates {st st' : Scene} {request : Generation.Request} {reply : Generation.Reply}
    (h : (world node answers).answer (.generate request) st = (.answer (.ok reply), st')) :
    answers (.generate request) = .ok reply := by
  have hanswer : answer node answers (.generate request) st = (.answer (.ok reply), st') := h
  rw [answer_of_steady (q := .generate request) trivial] at hanswer
  injection (Prod.mk.injEq .. ▸ hanswer).1

/-- Replies for the interval that was asked for, with records that last, are those of a service. -/
theorem generatedBy {service : Generation.Service} {url : Url}
    (hurl : service.base.join ["v1", "rewards-trees"] = some url) (hhttp : url.isHttp = true)
    (h : ∀ r reply, answers (.generate r) = .ok reply →
      Generation.Lasting reply.performance ∧ reply.tree.header.index = r.index) :
    GeneratedBy service (world node answers) := by
  intro st st' request reply ha
  obtain ⟨hlasting, hindex⟩ := h request reply (answers_of_generates ha)
  exact ⟨_, Generation.Service.ends_generate hurl hhttp hlasting hindex⟩

/-- The flags of the scene are the registry of the node. -/
theorem recordsAttestations :
    RecordsAttestations node (world node answers) fun st key => st.flags.contains key where
  stays := by
    intro st st' act key hm hset
    cases hm with
    | @hear q a _ _ h =>
      have hanswer : answer node answers q st = (.answer a, st') := h
      have hstays : (answer node answers q st).2.flags.contains key = true := contains_answer hset
      rwa [hanswer] at hstays
    | panic h => exact absurd h answer_ne_panic
    | _ => exact hset
  read := by
    intro st st' key b h
    cases h
    rfl
  submit := by
    intro st st' call options hash τ h hτ
    have ha : answer node answers (.submit call options) st = (.answer (.ok hash), st') := h
    rw [answer] at ha
    split at ha
    · cases ha
      simp only [record, hτ, List.contains_cons, beq_self_eq_true, Bool.true_or]
    · cases ha

end Scene

/-! ### What a member asks -/

namespace Duty.SubmitRewards

/-- The work of a job. -/
abbrev work (s : Settings) (j : Job) : Background Request Answer := ⟨SubmitRewards.name, j.execute s⟩

/-- A job of a member, for an interval and a count of elapsed intervals. -/
structure Job.Covers (j : Job) (index elapsed : UInt64) : Prop where
  isMember : j.isMember = true
  interval : j.interval.index = index
  intervalsPassed : j.intervalsPassed = elapsed

variable (s : Settings) (j : Job)

def putting (path : Path) (content : Bytes) : List (Exchange Request Answer) :=
  [⟨.disk (.createDirectories s.store.directory), .ok ()⟩,
    ⟨.disk (.write (Store.temporaryPath path) content), .ok ()⟩,
    ⟨.disk (.rename (Store.temporaryPath path) path), .ok ()⟩]

theorem mem_putting (path : Path) (content : Bytes) :
    (⟨.disk (.rename (Store.temporaryPath path) path), .ok ()⟩ : Exchange Request Answer) ∈
      putting s path content := .tail _ (.tail _ (.head _))

def building (reply : Generation.Reply) (cid : String) : List (Exchange Request Answer) :=
  [⟨.disk (.read (s.store.treePath j.interval.index)), .error .notFound⟩,
    ⟨.generate (j.request s), .ok reply⟩] ++
  (putting s (s.store.performancePath j.interval.index) (performanceBytes reply) ++
  (putting s (Store.compressedPath (s.store.performancePath j.interval.index))
    (Zstd.compress (performanceBytes reply)) ++
  (⟨.upload (Path.fileName (Store.compressedPath (s.store.performancePath j.interval.index)))
      (Zstd.compress (performanceBytes reply)), .ok cid⟩ ::
  putting s (s.store.treePath reply.tree.header.index) (treeBytes (withPerformance reply.tree cid)))))

/-- The exchanges of a member that finds a tree and no record in the registry, up to its submission. -/
def resuming (i : UInt64) (t : RewardsTree) (cid : String) : List (Exchange Request Answer) :=
  ⟨.disk (.read (s.store.treePath i)), .ok (Bytes.ofString t.encode)⟩ ::
  ⟨.flag (Submission.key .rewardsSnapshot s.node (RewardsTree.word i) none) none, .ok false⟩ ::
  (putting s (Store.compressedPath (s.store.treePath i)) (Zstd.compress (Bytes.ofString t.encode)) ++
  [⟨.upload (Path.fileName (Store.compressedPath (s.store.treePath i)))
    (Zstd.compress (Bytes.ofString t.encode)), .ok cid⟩])

def attesting (i : UInt64) (t : RewardsTree) (cid : String) : List (Exchange Request Answer) :=
  ⟨.flag (Submission.key .rewardsSnapshot s.node (RewardsTree.word i) none) none, .ok false⟩ ::
  (putting s (Store.compressedPath (s.store.treePath i)) (Zstd.compress (Bytes.ofString t.encode)) ++
  [⟨.upload (Path.fileName (Store.compressedPath (s.store.treePath i)))
    (Zstd.compress (Bytes.ofString t.encode)), .ok cid⟩])

variable {s j} {i : UInt64} {t : RewardsTree}

theorem admits_attesting_of_checking (t : RewardsTree) (cid : String) :
    (script s j).Admits (.checking t) (attesting s j.interval.index t cid)
      (.submit (.submitRewardSnapshot (t.submission cid)) (s.options 0)) :=
  ⟨rfl, rfl, rfl, rfl, rfl, rfl⟩

theorem asks_of_building (hj : j.isMember = true) (reply : Generation.Reply) (cid : String) :
    (j.execute s).run.Asks (building s j reply cid)
      (.flag (Submission.key .rewardsSnapshot s.node (RewardsTree.word j.interval.index) none) none) := by
  obtain ⟨isMember, interval, intervalsPassed, target⟩ := j
  cases hj
  refine (asks_iff_admits _ _ _).mpr ?_
  exact ⟨rfl, rfl, rfl, rfl, rfl, rfl, rfl, rfl, rfl, rfl, rfl, rfl, rfl⟩

/-- A member asks for its submission once the tree is built, stored and published. -/
theorem asks_of_attesting (hj : j.isMember = true) (reply : Generation.Reply) (cid : String) :
    (j.execute s).run.Asks
      (building s j reply cid ++ attesting s j.interval.index (withPerformance reply.tree cid) cid)
      (.submit (.submitRewardSnapshot ((withPerformance reply.tree cid).submission cid)) (s.options 0)) := by
  have hbuilt := (asks_iff_admits _ _ _).mp (asks_of_building (s := s) hj reply cid)
  apply (asks_iff_admits _ _ _).mpr
  apply hbuilt.append_iff.mpr
  obtain ⟨isMember, interval, intervalsPassed, target⟩ := j
  cases hj
  exact admits_attesting_of_checking _ cid

/-- Nothing is asked after a submission. -/
theorem ends_of_asks_submit {u : List (Exchange Request Answer)} {call : Call} {options : TxOptions}
    (h : (j.execute s).run.Asks u (.submit call options)) (answer : Answer (.submit call options)) :
    ∃ result, (j.execute s).run.Ends (u ++ [⟨.submit call options, answer⟩]) result := by
  have hasks := ((asks_iff_admits _ _ _).mp h).asks
  obtain ⟨tree, cid, hsubmitting, _⟩ := asks_submit hasks
  obtain ⟨r, hr⟩ := h.answered answer
  have hquiet : (script s j).Quiet ((script s j).after .reading (u ++ [⟨.submit call options, answer⟩])) := by
    intro q hq
    rw [Script.after, List.foldl_append] at hq
    change (script s j).asks (Phase.next j ((script s j).after .reading u) _ answer) q at hq
    rw [hsubmitting] at hq
    cases answer <;> cases hq
  obtain ⟨result, hrest⟩ := (execute_follows.path hr).ends_of_quiet hquiet
  have hend := hr.trans hrest
  rw [List.append_nil] at hend
  exact ⟨result, hend⟩

/-- The phase after a tree was found that can be used again. -/
theorem next_reading (hj : j.Covers i t.header.intervalsPassed) :
    (script s j).next .reading (.disk (.read (s.store.treePath i))) (.ok (treeBytes t)) =
      .checking t := by
  change Phase.found j (.ok (treeBytes t)) = .checking t
  simp only [Phase.found, treeBytes, Store.decode?_ofString_encode, hj.intervalsPassed, if_true,
    Phase.attesting, hj.isMember]

/-- A member that finds the tree of its interval goes on as from the check of the registry. -/
theorem asks_of_found (hj : j.Covers i t.header.intervalsPassed) (u : List (Exchange Request Answer))
    (q : Request) :
    (j.execute s).run.Asks
        (⟨.disk (.read (s.store.treePath i)), .ok (treeBytes t)⟩ :: u) q ↔
      (script s j).Admits (.checking t) u q := by
  rw [asks_iff_admits, ← next_reading (s := s) hj]
  refine and_iff_right ?_
  rw [← hj.interval]
  rfl

theorem asks_of_resuming (hj : j.Covers i t.header.intervalsPassed) (cid : String) :
    (j.execute s).run.Asks (resuming s i t cid)
      (.submit (.submitRewardSnapshot (t.submission cid)) (s.options 0)) := by
  refine (asks_of_found hj _ _).mpr ?_
  have hi := hj.interval
  subst hi
  exact admits_attesting_of_checking t cid

end Duty.SubmitRewards

/-! ### The run -/

namespace Scene

/-- The answers that a member's execution hopes for: a tree of the interval that is due, and no failures. -/
structure Favourable (answers : (q : Request) → Answer q) (s : Settings) (j : Job)
    (reply : Generation.Reply) (cid : String) (hash : Digest) : Prop where
  generates : answers (.generate (j.request s)) = .ok reply
  index : reply.tree.header.index = j.interval.index
  uploads : ∀ file content, answers (.upload file content) = .ok cid
  accepts : ∀ call options, answers (.submit call options) = .ok hash

variable {answers : (q : Request) → Answer q} {s : Settings} {j : Job} {reply : Generation.Reply}
  {cid : String} {hash : Digest} {d : Disk} {place : List String} {flags : List Digest}

/-- Steady requests leave the scene as it is. -/
theorem serves_steady (node : Address) {t : List (Exchange Request Answer)}
    (h : ∀ e ∈ t, Steady e.request ∧ e.answer = answers e.request) (st : Scene) :
    (world node answers).Serves st t st := by
  induction t with
  | nil => rfl
  | cons e t ih =>
    obtain ⟨hs, ha⟩ := h e List.mem_cons_self
    refine ⟨st, ?_, ih fun e he => h e (List.mem_cons_of_mem _ he)⟩
    rw [ha]
    exact answer_of_steady hs st

/-- In a directory that is there a content can always be put in its place. -/
theorem serves_putting (node : Address) (answers : (q : Request) → Answer q)
    (h : s.store.Open d place) {path : Path} (hp : s.store.Owns path) (content : Bytes)
    (flags : List Digest) :
    ∃ d', (world node answers).Serves ⟨d, flags⟩ (putting s path content) ⟨d', flags⟩ ∧
      s.store.Open d' place ∧ d'.read path = .ok content := by
  obtain ⟨d₁, d₂, hwrite, hrename, ho, hread⟩ := h.put hp content
  refine ⟨d₂, ⟨⟨d, flags⟩, ?_, ⟨d₁, flags⟩, ?_, ⟨d₂, flags⟩, ?_, rfl⟩, ho, hread⟩
  · simp only [world, answer, h.creates]
  · simp only [world, answer, hwrite]
  · simp only [world, answer, hrename]

/-- Where there is no tree yet, one is generated. -/
theorem serves_generating (node : Address) (h : Favourable answers s j reply cid hash)
    (hmissing : d.read (s.store.treePath j.interval.index) = .error .notFound) (flags : List Digest) :
    (world node answers).Serves ⟨d, flags⟩
      [⟨.disk (.read (s.store.treePath j.interval.index)), .error .notFound⟩,
        ⟨.generate (j.request s), .ok reply⟩] ⟨d, flags⟩ := by
  refine ⟨⟨d, flags⟩, ?_, ⟨d, flags⟩, ?_, rfl⟩
  · simp only [world, answer, Disk.perform, hmissing]
  · simp only [world, answer, h.generates]

/-- A member's execution can go through from an empty place to a stored tree. -/
theorem serves_building (node : Address) (h : Favourable answers s j reply cid hash)
    (ho : s.store.Open d place)
    (hmissing : d.read (s.store.treePath j.interval.index) = .error .notFound) (flags : List Digest) :
    ∃ d', (world node answers).Serves ⟨d, flags⟩ (building s j reply cid) ⟨d', flags⟩ ∧
      s.store.Open d' place ∧
      d'.read (s.store.treePath reply.tree.header.index) =
        .ok (treeBytes (withPerformance reply.tree cid)) := by
  have hperformance := s.store.owns_performancePath j.interval.index
  -- the performance file, its packed form and the tree, one after the other
  obtain ⟨d₁, hs₁, ho₁, _⟩ := serves_putting node answers ho hperformance
    (performanceBytes reply) flags
  obtain ⟨d₂, hs₂, ho₂, _⟩ := serves_putting node answers ho₁
    hperformance.compressed (Zstd.compress (performanceBytes reply)) flags
  obtain ⟨d₃, hs₃, ho₃, hread⟩ := serves_putting node answers ho₂
    (s.store.owns_treePath reply.tree.header.index) (treeBytes (withPerformance reply.tree cid)) flags
  refine ⟨d₃, ?_, ho₃, hread⟩
  have hfirst := serves_generating node h hmissing flags
  refine hfirst.append (hs₁.append (hs₂.append ⟨⟨d₂, flags⟩, ?_, hs₃⟩))
  simp only [world, answer, h.uploads]

def submission (s : Settings) (t : RewardsTree) (cid : String) (hash : Digest) : Exchange Request Answer :=
  ⟨.submit (.submitRewardSnapshot (t.submission cid)) (s.options 0), .ok hash⟩

/-- A tree that is not recorded is published and submitted. -/
theorem serves_attesting (node : Address) (h : Favourable answers s j reply cid hash)
    (ho : s.store.Open d place) (i : UInt64) (t : RewardsTree) :
    ∃ st', (world node answers).Serves ⟨d, []⟩ (attesting s i t cid ++ [submission s t cid hash]) st' := by
  obtain ⟨d₁, hs₁, _⟩ := serves_putting node answers ho
    (s.store.owns_treePath i).compressed (Zstd.compress (treeBytes t)) []
  have hupload : ∀ file content, (world node answers).Serves ⟨d₁, []⟩ [⟨.upload file content, .ok cid⟩]
      ⟨d₁, []⟩ := by
    intro file content
    refine ⟨⟨d₁, []⟩, ?_, rfl⟩
    simp only [world, answer, h.uploads]
  have hsubmit : (world node answers).Serves ⟨d₁, []⟩ [submission s t cid hash]
      (record node (.submitRewardSnapshot (t.submission cid)) ⟨d₁, []⟩) := by
    refine ⟨_, ?_, rfl⟩
    simp only [world, answer, submission, h.accepts]
  exact ⟨_, World.Serves.append ⟨⟨d, []⟩, rfl, hs₁.append (hupload _ _)⟩ hsubmit⟩

theorem serves_resuming (node : Address) (h : Favourable answers s j reply cid hash)
    (ho : s.store.Open d place) {i : UInt64} {t : RewardsTree}
    (hread : d.read (s.store.treePath i) = .ok (treeBytes t)) :
    ∃ st', (world node answers).Serves ⟨d, []⟩ (resuming s i t cid ++ [submission s t cid hash]) st' := by
  obtain ⟨st', hs⟩ := serves_attesting node h ho i t
  refine ⟨st', ⟨d, []⟩, ?_, hs⟩
  simp only [world, answer, Disk.perform, hread]
  rfl

/-- A tree that is due is taken up where no other one is. -/
theorem starts_due {node : Address} {st₀ : Scene} {e : Engine Scene Request Answer}
    {log : List (Event Request Answer)}
    (h : Process.Reachable (world node answers) (Trigger s) st₀ ⟨e, none, log⟩) {state : NetworkState}
    {u : List (Exchange Request Answer)}
    (hends : (SubmitRewards.run s state).run.Ends u (.ok (some (work s j))))
    (hu : ∀ e ∈ u, Steady e.request ∧ e.answer = answers e.request)
    (hfree : e.lanes.isTaken SubmitRewards.name = false) :
    ∃ span, Process.Reachable (world node answers) (Trigger s) st₀
      ⟨{ e with
          lanes := ⟨SubmitRewards.name :: e.lanes.inFlight⟩
          executions := e.executions ++
            [⟨e.started, SubmitRewards.name, span, .ready ((j.execute s).run.within span)⟩]
          started := e.started + 1 },
        none, .started e.started (work s j) :: transcript none u ++ log⟩ := by
  have htask : (⟨SubmitRewards.name, SubmitRewards.run s⟩ : Task Request Answer) ∈ tasks s :=
    List.mem_cons_of_mem _ (List.mem_cons_of_mem _ List.mem_cons_self)
  have hrun : Program.Ends (((Controller.runTask state
      (⟨SubmitRewards.name, SubmitRewards.run s⟩ : Task Request Answer)).bind fun _ =>
        .done Controller.fresh)) _ Controller.fresh :=
    Program.ends_bind.mpr ⟨(), _, [], (List.append_nil _).symm, runTask_ends hends, .refl _⟩
  have hserves := (Process.serves_asked (serves_steady node hu e.world)).append
    (Process.serves_start (b := work s j) (Controller.span SubmitRewards.name state.block) hfree)
  have hled := h.lead (.task state htask Controller.fresh) (fun _ _ => rfl) hserves hrun
  rw [Process.leadTranscript_asked] at hled
  exact ⟨_, hled⟩

def storedLog (s : Settings) (j : Job) (u : List (Exchange Request Answer)) (reply : Generation.Reply)
    (cid : String) : List (Event Request Answer) :=
  transcript (some 0) (building s j reply cid) ++ .started 0 (work s j) :: transcript none u

def laterLog (s : Settings) (j : Job) (u : List (Exchange Request Answer)) (t : RewardsTree)
    (cid : String) (hash : Digest) : List (Event Request Answer) :=
  transcript (some 1) (resuming s j.interval.index t cid ++ [submission s t cid hash]) ++
    .started 1 (work s j) :: transcript none u

theorem started_laterLog {u : List (Exchange Request Answer)} {t : RewardsTree} {n : Nat}
    {b : Background Request Answer} (h : .started n b ∈ laterLog s j u t cid hash) : b = work s j := by
  rcases List.mem_append.mp h with h | h
  · exact absurd h (started_not_mem_transcript _ _ _ _)
  · rcases List.mem_cons.mp h with h | h
    · cases h
      rfl
    · exact absurd h (started_not_mem_transcript _ _ _ _)

/-- The tree is put in its place at the end. -/
theorem storedLog_eq (s : Settings) (j : Job) (u : List (Exchange Request Answer))
    (reply : Generation.Reply) (cid : String) : ∃ earlier, .started 0 (work s j) ∈ earlier ∧
      storedLog s j u reply cid = .heard (some 0) (.disk (.rename
        (Store.temporaryPath (s.store.treePath reply.tree.header.index))
        (s.store.treePath reply.tree.header.index))) (.ok ()) :: earlier := by
  refine ⟨_, ?_, rfl⟩
  exact List.mem_append_right _ List.mem_cons_self

/-- When all goes well a tree is built and stored, and submitted after the process was stopped. -/
theorem resumes (h : Favourable answers s j reply cid hash)
    (hj : j.Covers j.interval.index reply.tree.header.intervalsPassed) {state : NetworkState}
    {u : List (Exchange Request Answer)}
    (hends : (SubmitRewards.run s state).run.Ends u (.ok (some (work s j))))
    (hu : ∀ e ∈ u, Steady e.request ∧ e.answer = answers e.request) (ho : s.store.Open d place)
    (hmissing : d.read (s.store.treePath j.interval.index) = .error .notFound) :
    ∃ p, Process.Reachable (world s.node answers) (Trigger s) ⟨d, []⟩ p ∧
      p.log = laterLog s j u (withPerformance reply.tree cid) cid hash ++ storedLog s j u reply cid := by
  have hquiet : ∀ line st, (world s.node answers).write line st = st := fun _ _ => rfl
  have hidle : Process.Reachable (world s.node answers) (Trigger s) ⟨d, []⟩
    ⟨Engine.idle ⟨d, []⟩, none, []⟩ := .refl
  -- a first execution builds the tree and stores it
  obtain ⟨span, hfirst⟩ := starts_due hidle hends hu rfl
  obtain ⟨next, hbuilt⟩ := asks_of_building (s := s) hj.isMember reply cid
  obtain ⟨d', hserves, ho', hread⟩ := serves_building s.node h ho hmissing []
  have hstored := Process.Reachable.work hfirst hquiet hserves hbuilt
  -- the process is stopped, and a second one finds the tree
  obtain ⟨span', hsecond⟩ := starts_due (hstored.tail .restart) hends hu rfl
  rw [h.index] at hread
  obtain ⟨r, hresumed⟩ := (asks_of_resuming (t := withPerformance reply.tree cid) hj cid).answered
    (.ok hash)
  obtain ⟨st', hserves'⟩ := serves_resuming s.node h ho' hread
  refine ⟨_, Process.Reachable.work hsecond hquiet hserves' hresumed, ?_⟩
  simp only [laterLog, storedLog, List.append_nil, List.append_assoc, List.cons_append]
  rfl

end Scene

/-! ### A round that goes well -/

namespace Sample

def midnight : Instant := ⟨⟨2024, 1, 1, by decide⟩, 0, 0, by decide⟩

def tree : RewardsTree where
  header := {
    rewardsFileVersion := 3
    rulesetVersion := 8
    index := 5
    network := "mainnet"
    startTime := midnight
    endTime := midnight
    consensusStartBlock := 9
    consensusEndBlock := 94
    executionStartBlock := 1009
    executionEndBlock := 1094
    intervalsPassed := 1
    merkleRoot := 3
    minipoolPerformanceFileCid := ""
    totalRewards := ⟨1, 2, 3, 4, 5, 6⟩
    networkRewards := .ofList [(0, ⟨10, 20, 30⟩), (1, ⟨11, 21, 31⟩)] }
  nodeRewards := .ofList [(12, ⟨0, 40, 50, 60, [70, 80]⟩)]

def reply : Generation.Reply := ⟨tree, .object [("index", .ofUInt64 5)]⟩

def service : Generation.Service := ⟨⟨"http", some ⟨none, "localhost", some 8080⟩, .segments [""], none, none⟩⟩

/-- The answers of a round in which nothing fails; requests of other rounds are refused. -/
def answers : (q : Request) → Answer q
  | .head => .ok ⟨170, 5, 3⟩
  | .block slot => .ok (if slot = 95 then none else some ⟨slot, slot + 1000⟩)
  | .generate r => if r.index = 5 then .ok reply else .error (.wrongInterval r.index 5)
  | .upload .. => .ok "bafybeigd"
  | .submit .. => .ok 1
  | .disk _ => .error .notFound
  | .timing => .error refused
  | .latestBlock => .error refused
  | .blockTime _ => .error refused
  | .flag .. => .error refused
  | .rewardInterval _ => .error refused
  | .priceSettings _ => .error refused
  | .members _ => .error refused
  | .observe .. => .error refused
  | .stale .. => .error refused
  | .suggestedFee => .error refused
where
  refused : Report := .of (.plain "refused")

def disk : Disk := ⟨.empty, []⟩

abbrev world : World Scene Request Answer := Scene.world settings.node answers

theorem eq_of_answers {request : Generation.Request} {r : Generation.Reply}
    (h : answers (.generate request) = .ok r) : r = reply ∧ request.index = 5 := by
  simp only [answers] at h
  split at h
  · next hindex => exact ⟨(Except.ok.inj h).symm, hindex⟩
  · cases h

theorem eq_of_generates {st st' : Scene} {request : Generation.Request} {r : Generation.Reply}
    (h : world.answer (.generate request) st = (.answer (.ok r), st')) : r = reply ∧ request.index = 5 :=
  eq_of_answers (Scene.answers_of_generates h)

theorem lasting : Generation.Lasting reply.performance :=
  ⟨⟨Json.plain_ofUInt64 5, trivial⟩, by decide, rfl⟩

theorem generatedBy : GeneratedBy service world := by
  apply Scene.generatedBy rfl (by decide)
  intro request r ha
  obtain ⟨rfl, hindex⟩ := eq_of_answers ha
  exact ⟨lasting, hindex.symm⟩

theorem directoryAt : disk.DirectoryAt settings.store.directory [] := ⟨rfl, rfl⟩

theorem vacant : disk.Vacant settings.store.directory :=
  Disk.vacant_of_directoryAt directoryAt fun _ => rfl

def storedLog : List (Event Request Answer) := Scene.storedLog settings job asked reply "bafybeigd"

def laterLog : List (Event Request Answer) :=
  Scene.laterLog settings job asked (withPerformance tree "bafybeigd") "bafybeigd" 1

theorem opened : settings.store.Open disk [] := by
  refine ⟨directoryAt, ?_, by decide⟩
  intro name h
  cases h

theorem missing : disk.read (settings.store.treePath 5) = .error .notFound := by
  obtain ⟨name, hl⟩ := opened.locate (settings.store.owns_treePath 5)
  rw [Disk.read, hl]
  rfl

theorem steady : ∀ e ∈ asked, Scene.Steady e.request ∧ e.answer = answers e.request := by
  simp only [asked, List.forall_mem_cons]
  exact ⟨⟨trivial, rfl⟩, ⟨trivial, rfl⟩, ⟨trivial, rfl⟩, List.forall_mem_nil _⟩

theorem resumes : ∃ p, Process.Reachable world (Trigger settings) ⟨disk, []⟩ p ∧
    p.log = laterLog ++ storedLog := by
  have hfavourable : Scene.Favourable answers settings job reply "bafybeigd" 1 :=
    ⟨rfl, rfl, fun _ _ => rfl, fun _ _ => rfl⟩
  exact Scene.resumes hfavourable ⟨rfl, rfl, rfl⟩ ends_run steady opened missing

end Sample

end OracleDuty
