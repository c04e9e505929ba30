import OracleDuty.Proofs.TreeOrigin
/-!
The count of elapsed intervals in a submission: a tree that is found has the count of the job, and one that is
generated has the count that the generator gave it, which nothing compares with the job.

Main statement: `submitted_values`.
-/
namespace OracleDuty

open Duty Duty.SubmitRewards

namespace Duty.SubmitRewards

/-! ### The count of the tree in hand -/

def reply? : Exchange Request Answer → Option Generation.Reply
  | ⟨.generate _, .ok reply⟩ => some reply
  | _ => none

def replies (u : List (Exchange Request Answer)) : List Generation.Reply := u.filterMap reply?

theorem replies_snoc (u : List (Exchange Request Answer)) (e : Exchange Request Answer) :
    replies (u ++ [e]) = replies u ++ (reply? e).toList := by
  rw [replies, List.filterMap_append, List.filterMap_cons, List.filterMap_nil]
  cases reply? e <;> rfl

/-- The replies are those that were heard. -/
theorem mem_replies {u : List (Exchange Request Answer)} {reply : Generation.Reply} :
    reply ∈ replies u ↔ ∃ request, ⟨.generate request, .ok reply⟩ ∈ u := by
  rw [replies, List.mem_filterMap]
  constructor
  · rintro ⟨⟨q, a⟩, he, hreply⟩
    cases q with
    | generate request =>
      rcases a with e | r
      · cases hreply
      · cases hreply
        exact ⟨request, he⟩
    | _ => cases hreply
  · rintro ⟨request, he⟩
    exact ⟨_, he, rfl⟩

inductive Counted (elapsed : UInt64) : List Generation.Reply → UInt64 → Prop
  | found : Counted elapsed [] elapsed
  | sent (reply : Generation.Reply) : Counted elapsed [reply] reply.tree.header.intervalsPassed

def Errand.count : Errand → UInt64
  | performance r => r.tree.header.intervalsPassed
  | packedPerformance r => r.tree.header.intervalsPassed
  | tree t => t.header.intervalsPassed
  | packedTree t => t.header.intervalsPassed

def Tells (elapsed : UInt64) (replies : List Generation.Reply) : Phase → Prop
  | .reading => replies = []
  | .generating => replies = []
  | .creating e => Counted elapsed replies e.count
  | .writing e => Counted elapsed replies e.count
  | .placing e => Counted elapsed replies e.count
  | .uploadingPerformance r => Counted elapsed replies r.tree.header.intervalsPassed
  | .checking t => Counted elapsed replies t.header.intervalsPassed
  | .uploadingTree t => Counted elapsed replies t.header.intervalsPassed
  | .submitting t _ => Counted elapsed replies t.header.intervalsPassed
  | .ended => True

variable {s : Settings} {j : Job} {u : List (Exchange Request Answer)} {m m' : Phase}

theorem Tells.stored {elapsed : UInt64} {rs : List Generation.Reply} {e : Errand}
    (h : Counted elapsed rs e.count) : Tells elapsed rs (Phase.stored j e) := by
  cases e with
  | performance r => exact stored_performance_cases (motive := Tells elapsed rs) h h
  | packedPerformance r => exact h
  | tree t => exact attesting_cases (motive := Tells elapsed rs) h trivial
  | packedTree t => exact h

/-- From one phase to the next the count stays what it was, unless a tree is found or sent. -/
theorem Tells.goes {q : Request} {a : Answer q} {rs : List Generation.Reply}
    (h : Tells j.intervalsPassed rs m) (hgo : Phase.Goes s j m q a m') :
    Tells j.intervalsPassed (rs ++ (reply? ⟨q, a⟩).toList) m' := by
  -- only an answer of the generator brings a reply
  have hsame : reply? ⟨q, a⟩ = none → rs ++ (reply? ⟨q, a⟩).toList = rs := by
    intro hnone
    rw [hnone]
    exact List.append_nil rs
  cases hgo with
  | found hdecode hcount =>
    have hnone : rs = [] := h
    rw [hsame rfl, hnone]
    refine attesting_cases (motive := Tells j.intervalsPassed []) ?_ trivial
    rw [Tells, hcount]
    exact .found
  | generated reply =>
    have hnone : rs = [] := h
    rw [hnone]
    exact .sent reply
  | placed e =>
    rw [hsame rfl]
    exact Tells.stored h
  | ended => trivial
  | _ =>
    rw [hsame rfl]
    exact h

/-- The count that is submitted after some exchanges is the one of the only reply in them, or the one of the
job if there is none. -/
theorem counted_of_asks {call : SnapshotSubmission} {options : TxOptions}
    (h : (j.execute s).run.Asks u (.submit (.submitRewardSnapshot call) options)) :
    ∃ count, call.intervalsPassed = RewardsTree.word count ∧ Counted j.intervalsPassed (replies u) count := by
  have hadmits := (asks_iff_admits _ _ _).mp h
  -- nothing was sent at first, and each exchange keeps what is known
  have htells : Tells j.intervalsPassed (replies u) ((script s j).after .reading u) := by
    apply hadmits.invariant (P := fun u m => Tells j.intervalsPassed (replies u) m) rfl
    intro u m q a hm hq
    rw [replies_snoc]
    exact hm.goes (goes_next hq a)
  obtain ⟨t, cid, hphase, hcall, _⟩ := asks_submit hadmits.asks
  cases hcall
  rw [hphase] at htells
  exact ⟨t.header.intervalsPassed, rfl, htells⟩

end Duty.SubmitRewards

/-! ### Submissions -/

/-- The execution `n` was launched in a state. -/
def LaunchedIn (s : Settings) (log : List (Event Request Answer)) (n : Nat) (state : NetworkState) : Prop :=
  ∃ j u, (launch s state).run.Ends u (.ok (some j)) ∧ .started n (work s j) ∈ log

/-- Where the values of a submission of the execution `n` are from, when it was launched in a state in which
so many intervals had elapsed. -/
structure SubmittedValues (s : Settings) (log : List (Event Request Answer)) (n : Nat)
    (x : SnapshotSubmission) (state : NetworkState) (elapsed : UInt64) : Prop where
  computed : Interval.elapsed (state.timing.slotTime state.slot) state.interval.startTime
    state.interval.duration = .ok elapsed
  index : x.rewardIndex = RewardsTree.word state.interval.index
  found : (∀ request reply, .heard (some n) (.generate request) (.ok reply) ∉ log) →
    x.intervalsPassed = RewardsTree.word elapsed
  sent : ∀ request reply, .heard (some n) (.generate request) (.ok reply) ∈ log →
    x.intervalsPassed = RewardsTree.word reply.tree.header.intervalsPassed

namespace SubmittedValues

/-- The count that is submitted is the elapsed one, or the one of the reply. -/
theorem of_counted {s : Settings} {log : List (Event Request Answer)} {n : Nat} {x : SnapshotSubmission}
    {state : NetworkState} {j : Job} (hdue : DueAt s state j)
    (hindex : x.rewardIndex = RewardsTree.word j.interval.index) {count : UInt64}
    (hcount : x.intervalsPassed = RewardsTree.word count)
    (h : Counted j.intervalsPassed (replies (trace n log)) count) :
    SubmittedValues s log n x state j.intervalsPassed := by
  have hmem : ∀ request reply, .heard (some n) (.generate request) (.ok reply) ∈ log →
      reply ∈ replies (trace n log) := by
    intro request reply hheard
    exact mem_replies.mpr ⟨request, mem_trace_of_heard hheard⟩
  generalize hrs : replies (trace n log) = rs at h hmem
  constructor
  case computed => exact hdue.elapsed
  case index =>
    rw [hindex, hdue.interval]
  case found =>
    intro hnone
    cases h with
    | found => exact hcount
    | sent reply =>
      -- the reply was heard by the execution
      have hreply : reply ∈ replies (trace n log) := by
        rw [hrs]
        exact List.mem_singleton_self reply
      obtain ⟨request, he⟩ := mem_replies.mp hreply
      exact absurd (mem_of_mem_trace he) (hnone request reply)
  case sent =>
    intro request reply hheard
    cases h with
    | found => exact absurd (hmem request reply hheard) List.not_mem_nil
    | sent reply' =>
      have hsame : reply = reply' := List.mem_singleton.mp (hmem request reply hheard)
      rw [hcount, hsame]

end SubmittedValues

/-- From an empty directory on, whatever happens, a snapshot is submitted by an execution for the interval of
the state that it was launched in. The count in it is the one that was computed then, if the execution was
sent no tree; if it was sent one, the count in it is the one of that tree, whatever the other is. -/
theorem submitted_values {σ : Type} {s : Settings} {w : World σ Request Answer} {disk : σ → Disk}
    {service : Generation.Service} (hd : UsesDisk w disk) (hg : GeneratedBy service w) {st : σ}
    (hv : (disk st).Vacant s.store.directory) {p p' : Process σ Request Answer Controller}
    (hp : Process.Reachable w (Trigger s) st p) {number : Option Nat} {x : SnapshotSubmission}
    {options : TxOptions} (hstep : Process.Step w (Trigger s) p p')
    (hlog : p'.log = .sent number (.submit (.submitRewardSnapshot x) options) :: p.log) :
    ∃ n, number = some n ∧ (∃ state, LaunchedIn s p.log n state) ∧
      ∀ state, LaunchedIn s p.log n state → ∃ elapsed, SubmittedValues s p.log n x state elapsed := by
  obtain ⟨n, j, t, cid, rfl, hx, hholds⟩ := TreeOrigin.submitting_of_sent hd hg hv hp hstep hlog
  refine ⟨n, rfl, ?_, ?_⟩
  · -- whatever is started was called for
    obtain ⟨j', hwork, state, u, hends⟩ := called_of_started hp hholds.started rfl
    have hstarted := hholds.started
    rw [hwork] at hstarted
    exact ⟨state, j', u, hends, hstarted⟩
  · rintro state ⟨j', u, hends, hstarted⟩
    -- the execution is the one of both jobs, so they agree in what they are asked for
    have hwork : work s j = work s j' :=
      (Process.sound_of_reachable hp).unique n _ _ hholds.started hstarted
    have hrequest := SnapshotRequest.request_of_execute (Background.mk.inj hwork).2
    have hindex : j.interval.index = j'.interval.index := congrArg Generation.Request.index hrequest
    have hsound := Process.sound_of_reachable (hp.tail hstep)
    have hsent : p'.log = [] ++ .sent (some n) (.submit (.submitRewardSnapshot x) options) :: p.log := hlog
    have hafter : .started n (work s j') ∈ p'.log := by
      rw [hlog]
      exact List.mem_cons_of_mem _ hstarted
    -- the submission is what the job asks after all that its execution has heard
    have hasks := hsound.asks_of_sent hsent hafter
    obtain ⟨count, hcount, hcounted⟩ := counted_of_asks hasks
    refine ⟨j'.intervalsPassed, .of_counted (dueAt_of_launch hends) ?_ hcount hcounted⟩
    rw [hx, ← hindex]
    exact congrArg RewardsTree.word hholds.indexed

/-! ### A reply with another count -/

namespace Scene

variable {answers : (q : Request) → Answer q} {s : Settings} {j : Job} {reply : Generation.Reply}
  {cid : String} {hash : Digest} {d : Disk} {place : List String}

/-- When all goes well the tree that the generator sends is submitted, whatever count it has. -/
theorem submits (h : Favourable answers s j reply cid hash) (hj : j.isMember = true) {state : NetworkState}
    {u : List (Exchange Request Answer)} (hends : (launch s state).run.Ends u (.ok (some j)))
    (hu : ∀ e ∈ u, Steady e.request ∧ e.answer = answers e.request) (ho : s.store.Open d place)
    (hmissing : d.read (s.store.treePath j.interval.index) = .error .notFound) :
    ∃ p p', Process.Reachable (world s.node answers) (Trigger s) ⟨d, []⟩ p ∧
      Process.Step (world s.node answers) (Trigger s) p p' ∧
      p'.log = .sent (some 0) (.submit (.submitRewardSnapshot
        ((withPerformance reply.tree cid).submission cid)) (s.options 0)) :: p.log ∧
      LaunchedIn s p.log 0 state := by
  have hquiet : ∀ line st, (world s.node answers).write line st = st := fun _ _ => rfl
  have hidle : Process.Reachable (world s.node answers) (Trigger s) ⟨d, []⟩
    ⟨Engine.idle ⟨d, []⟩, none, []⟩ := .refl
  obtain ⟨span, hstarted⟩ := starts_due hidle (SnapshotRequest.ends_run_of_launch hends) hu rfl
  -- the tree is built, and attested in the directory that the building has left
  obtain ⟨d', hbuilt, ho', _⟩ := serves_building s.node h ho hmissing []
  obtain ⟨st', hattested⟩ := serves_attesting s.node h ho' j.interval.index (withPerformance reply.tree cid)
  have hserves := hbuilt.append hattested
  rw [← List.append_assoc] at hserves
  obtain ⟨r, hanswered⟩ := (asks_of_attesting (s := s) hj reply cid).answered (.ok hash)
  have hsubmitted := Process.Reachable.work hstarted hquiet hserves hanswered
  obtain ⟨p, p', hp, hstep, hsent, hl⟩ := hsubmitted.sends (e := submission s _ cid hash) rfl
  refine ⟨p, p', hp, hstep, hsent, j, u, hends, ?_⟩
  rw [hl]
  exact List.mem_append_right _ List.mem_cons_self

end Scene

namespace Sample

def seven : Generation.Reply :=
  { reply with tree := { tree with header := { tree.header with intervalsPassed := 7 } } }

def sevenAnswers : (q : Request) → Answer q
  | .generate r => if r.index = 5 then .ok seven else .error (.wrongInterval r.index 5)
  | q => answers q

abbrev sevenWorld : World Scene Request Answer := Scene.world settings.node sevenAnswers

theorem seven_generatedBy : GeneratedBy service sevenWorld := by
  apply Scene.generatedBy rfl (by decide)
  intro request r ha
  simp only [sevenAnswers] at ha
  split at ha
  · next hindex =>
    cases ha
    exact ⟨lasting, hindex.symm⟩
  · cases ha

theorem seven_submitted : ∃ p p', Process.Reachable sevenWorld (Trigger settings) ⟨disk, []⟩ p ∧
    Process.Step sevenWorld (Trigger settings) p p' ∧
    p'.log = .sent (some 0) (.submit (.submitRewardSnapshot
      ((withPerformance seven.tree "bafybeigd").submission "bafybeigd")) (settings.options 0)) :: p.log ∧
    LaunchedIn settings p.log 0 state := by
  have hfavourable : Scene.Favourable sevenAnswers settings job seven "bafybeigd" 1 :=
    ⟨rfl, rfl, fun _ _ => rfl, fun _ _ => rfl⟩
  have hsteady : ∀ e ∈ asked, Scene.Steady e.request ∧ e.answer = sevenAnswers e.request := by
    simp only [asked, List.forall_mem_cons]
    exact ⟨⟨trivial, rfl⟩, ⟨trivial, rfl⟩, ⟨trivial, rfl⟩, List.forall_mem_nil _⟩
  exact Scene.submits hfavourable rfl ends_launch hsteady opened missing

end Sample

open Sample in
theorem submitted_values_sample : ∃ p x elapsed,
    Process.Reachable sevenWorld (Trigger settings) ⟨disk, []⟩ p ∧
    SubmittedValues settings p.log 0 x state elapsed := by
  obtain ⟨p, p', hp, hstep, hlog, hlaunched⟩ := seven_submitted
  obtain ⟨n, hn, _, hvalues⟩ :=
    submitted_values Scene.usesDisk seven_generatedBy vacant hp hstep hlog
  cases hn
  obtain ⟨elapsed, h⟩ := hvalues state hlaunched
  exact ⟨p, _, elapsed, hp, h⟩

open Sample in
/-- A count of seven is submitted by an execution that was launched when one interval had elapsed. -/
theorem seven_submitted_for_one : GeneratedBy service sevenWorld ∧ ∃ p p' x,
    Process.Reachable sevenWorld (Trigger settings) ⟨disk, []⟩ p ∧
    Process.Step sevenWorld (Trigger settings) p p' ∧
    p'.log = .sent (some 0) (.submit (.submitRewardSnapshot x) (settings.options 0)) :: p.log ∧
    LaunchedIn settings p.log 0 state ∧
    Interval.elapsed (state.timing.slotTime state.slot) state.interval.startTime state.interval.duration =
      .ok 1 ∧ x.intervalsPassed = 7 := by
  obtain ⟨p, p', hp, hstep, hlog, hlaunched⟩ := seven_submitted
  exact ⟨seven_generatedBy, p, p', _, hp, hstep, hlog, hlaunched, rfl, rfl⟩

end OracleDuty
