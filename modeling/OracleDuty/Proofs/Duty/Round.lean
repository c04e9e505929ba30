import OracleDuty.Duty.Round
import OracleDuty.Proofs.Duty.RelayPrices
import OracleDuty.Proofs.Duty.SubmitPrices
import OracleDuty.Proofs.Duty.SubmitRewards
import OracleDuty.Proofs.Duty.View
import OracleDuty.Proofs.Foreground
/-!
The discipline of a round: foregrounds only read the chains and relay prices, and the background executions
are those of the two tasks that have them, each in its own lane.

Main statements: `discipline_valid`, and `launching_valid`, by which a rewards execution comes of a launch.
-/
namespace OracleDuty.Duty

inductive Role where
  | rewards (j : SubmitRewards.Job) (phase : SubmitRewards.Phase)
  | prices (j : SubmitPrices.Job) (phase : SubmitPrices.Phase)

def roleScript (s : Settings) : Script Request Answer Role where
  asks
    | .rewards j m, q => (SubmitRewards.script s j).asks m q
    | .prices j m, q => (SubmitPrices.script s j).asks m q
  next
    | .rewards j m, q, a => .rewards j ((SubmitRewards.script s j).next m q a)
    | .prices j m, q, a => .prices j ((SubmitPrices.script s j).next m q a)

def Role.lane : Role → String
  | rewards .. => SubmitRewards.name
  | prices .. => SubmitPrices.name

@[simp] theorem lane_next (s : Settings) (m : Role) (q : Request) (a : Answer q) :
    ((roleScript s).next m q a).lane = m.lane := by
  cases m <;> rfl

@[simp] theorem lane_step (s : Settings) (m : Role) (act : Act Request Answer) :
    ((roleScript s).step m act).lane = m.lane := by
  cases act with
  | hear q a => exact lane_next s m q a
  | _ => rfl

@[simp] theorem lane_after (s : Settings) (m : Role) (t : List (Exchange Request Answer)) :
    ((roleScript s).after m t).lane = m.lane := by
  induction t generalizing m with
  | nil => rfl
  | cons e t ih => exact (ih _).trans (lane_next s m _ _)

def Mild : Request → Prop
  | .submit (.submitRate ..) _ => True
  | .submit .. => False
  | .flag .. => False
  | .upload .. => False
  | .generate _ => False
  | .disk _ => False
  | _ => True

inductive Starts (s : Settings) : Background Request Answer → Role → Prop where
  | rewards (j : SubmitRewards.Job) :
    Starts s ⟨SubmitRewards.name, j.execute s⟩ (.rewards j .reading)
  | prices (j : SubmitPrices.Job) :
    Starts s ⟨SubmitPrices.name, j.execute s⟩ (.prices j .observing)

theorem Starts.lane {s : Settings} {b : Background Request Answer} {m : Role} (h : Starts s b m) :
    b.lane = m.lane := by
  cases h <;> rfl

def discipline (s : Settings) : Discipline Request Answer Role := ⟨roleScript s, Mild, Starts s⟩

/-- A job for the interval of a state, with the number of intervals that have elapsed in it. Nodes that are no
members have such jobs if they generate trees. -/
structure SubmitRewards.DueAt (s : Settings) (state : NetworkState) (j : SubmitRewards.Job) : Prop where
  isMember : j.isMember = state.isMember s.node
  interval : j.interval = state.interval
  elapsed : Interval.elapsed (state.timing.slotTime state.slot) state.interval.startTime
    state.interval.duration = .ok j.intervalsPassed
  concerned : state.isMember s.node = true ∨ s.treeMode = .generate

def SubmitRewards.Called (s : Settings) (j : SubmitRewards.Job) : Prop :=
  ∃ state t, (SubmitRewards.launch s state).run.Ends t (.ok (some j))

inductive Launched (s : Settings) : Background Request Answer → Role → Prop
  | rewards {j : SubmitRewards.Job} (h : SubmitRewards.Called s j) :
    Launched s ⟨SubmitRewards.name, j.execute s⟩ (.rewards j .reading)
  | prices (j : SubmitPrices.Job) :
    Launched s ⟨SubmitPrices.name, j.execute s⟩ (.prices j .observing)

theorem Launched.starts {s : Settings} {b : Background Request Answer} {m : Role} (h : Launched s b m) :
    Starts s b m := by
  cases h with
  | rewards h => exact .rewards _
  | prices j => exact .prices j

def launching (s : Settings) : Discipline Request Answer Role := ⟨roleScript s, Mild, Launched s⟩

/-- What sets a foreground off: a whole round of the controller, or one of the tasks on a state of any
kind. -/
inductive Trigger (s : Settings) : Foreground Request Answer Controller → Prop where
  | round (c : Controller) : Trigger s (Duty.round s c)
  | task (state : NetworkState) {t : Task Request Answer} (ht : t ∈ tasks s) (c : Controller) :
    Trigger s ((Controller.runTask state t).bind fun _ => .done c)

/-! ### Background work -/

/-- All background work follows the script of its role. -/
theorem starts_follows {s : Settings} {b : Background Request Answer} {m : Role} (h : Starts s b m) :
    b.work.run.Follows (roleScript s) m fun m _ => (roleScript s).Quiet m := by
  cases h with
  | rewards j =>
    refine (SubmitRewards.execute_follows.map (f := Role.rewards j) (fun _ _ h => h)
      fun _ _ _ _ => rfl).mono ?_
    rintro _ _ ⟨_, rfl, rfl⟩ q hq
    nomatch hq
  | prices j =>
    refine (SubmitPrices.execute_follows.map (f := Role.prices j) (fun _ _ h => h)
      fun _ _ _ _ => rfl).mono ?_
    rintro _ _ ⟨m, rfl, hm⟩
    exact hm

/-! ### Foregrounds -/

def Upfront : Request → Prop
  | .head => True
  | .block _ => True
  | .blockTime _ => True
  | .stale .. => True
  | .suggestedFee => True
  | .submit (.submitRate ..) _ => True
  | _ => False

def ReadsSnapshot : Request → Prop
  | .head => True
  | .block _ => True
  | _ => False

/-- What tasks ask in the foreground attests to nothing and touches no disk. -/
theorem Upfront.mild {q : Request} (h : Upfront q) : Mild q := by
  cases q with
  | submit call options =>
    cases call with
    | submitRate target messenger params => exact h
    | _ => exact h.elim
  | head => exact h
  | block slot => exact h
  | blockTime block => exact h
  | stale messengers block => exact h
  | suggestedFee => exact h
  | _ => exact h.elim

theorem ReadsSnapshot.upfront {q : Request} (h : ReadsSnapshot q) : Upfront q := by
  cases q with
  | head => exact h
  | block slot => exact h
  | _ => exact h.elim

theorem Loading.mild {known : Option (List Member)} {q : Request} (h : Loading known q) : Mild q := by
  cases h <;> trivial

abbrev UpfrontAction {α : Type} (x : Action α) (post : α → Prop) : Prop :=
  (Script.only Upfront).Guides () x (fun _ => True) fun _ a => post a

abbrev SnapshotAction {α : Type} (x : Action α) (post : α → Prop) : Prop :=
  (Script.only ReadsSnapshot).Guides () x (fun _ => True) fun _ a => post a

theorem SnapshotAction.upfront {α : Type} {x : Action α} {post : α → Prop} (h : SnapshotAction x post) :
    UpfrontAction x post := by
  refine (Program.Follows.stay h fun q hq => ⟨hq.upfront, fun _ => rfl⟩).mono ?_
  rintro _ (report | a) ⟨-, hr⟩
  · trivial
  · exact hr

theorem suggestedFee_upfront : UpfrontAction RelayPrices.suggestedFee fun _ => True := by
  unfold RelayPrices.suggestedFee
  rw [UpfrontAction, guides_noting]
  refine ⟨trivial, ?_⟩
  rintro (e | fee) <;> trivial

/-- Finding the terms of a relay belongs in the foreground. -/
theorem terms_upfront (s : Settings) (target : Relay.Target) :
    UpfrontAction (RelayPrices.terms s target) fun _ => True := by
  cases target with
  | arbitrum => exact guides_bind.mpr (suggestedFee_upfront.mono (fun _ h => h) fun _ _ _ => trivial)
  | zkSyncEra =>
    refine guides_bind.mpr ?_
    unfold RelayPrices.configuredFee
    cases s.fees.maxFeePerGas with
    | some fee => trivial
    | none => exact suggestedFee_upfront.mono (fun _ h => h) fun _ _ _ => trivial
  | _ => trivial

theorem relay_upfront (s : Settings) (target : Relay.Target) (messenger : Address) :
    UpfrontAction (RelayPrices.relay s target messenger) fun _ => True := by
  unfold RelayPrices.relay
  refine guides_bind.mpr ((terms_upfront s target).mono (fun _ h => h) ?_)
  rintro _ ⟨params, value⟩ _
  refine guides_bind.mpr (guides_log.mpr (guides_bind.mpr ⟨trivial, ?_⟩))
  rintro (e | hash) <;> trivial

/-- All relays of a round belong in the foreground. -/
theorem relayAll_upfront (s : Settings) (targets : List (Relay.Target × Address)) :
    (RelayPrices.relayAll s targets).Follows (Script.only Upfront) () fun _ _ => True := by
  induction targets with
  | nil => trivial
  | cons target rest ih =>
    obtain ⟨target, messenger⟩ := target
    refine Program.follows_bind.mpr (Program.Follows.mono (relay_upfront s target messenger) ?_)
    -- a relay that fails is reported, and the others are made all the same
    rintro ⟨⟩ (e | _) _
    · exact Program.follows_bind.mpr (Program.follows_bind.mpr (ih.mono fun _ _ _ => trivial))
    · exact ih

/-- The relay of prices is all done in the foreground. -/
theorem relayPrices_upfront (s : Settings) (state : NetworkState) :
    UpfrontAction (RelayPrices.run s state) fun _ => True := by
  unfold RelayPrices.run
  split
  · trivial
  have hstale : UpfrontAction (RelayPrices.staleMessengers s state) fun _ => True :=
    RelayPrices.staleMessengers_reads s state () trivial
  refine guides_bind.mpr (hstale.mono (fun _ h => h) ?_)
  rintro ⟨⟩ stale _
  split
  · trivial
  split
  · trivial
  dsimp only
  split
  · trivial
  · refine guides_bind.mpr (guides_log.mpr (guides_bind.mpr (guides_lift.mpr ?_)))
    refine (relayAll_upfront s stale).mono ?_
    rintro ⟨⟩ failures _
    split <;> trivial

/-- A price report reads the chains in the foreground, and calls for no other work than a report. -/
theorem submitPrices_upfront (s : Settings) (state : NetworkState) :
    UpfrontAction (SubmitPrices.run s state) fun b => ∀ x, b = some x → ∃ m, Launched s x m := by
  have hlaunch : UpfrontAction (SubmitPrices.launch s state) fun _ => True :=
    SubmitPrices.launch_reads s state () (fun _ _ => trivial) fun _ => trivial
  -- whatever job comes of it, what is started is its execution
  refine guides_bind.mpr (hlaunch.mono (fun _ h => h) ?_)
  rintro ⟨⟩ job _
  refine guides_pure.mpr ?_
  intro x hx
  obtain ⟨j, _, rfl⟩ := Option.map_eq_some_iff.mp hx
  exact ⟨_, .prices j⟩

/-- A walk asks for blocks only. -/
theorem walk_snapshot (first : UInt64) (left : Nat) (slot : UInt64) :
    SnapshotAction (Snapshot.walk first left slot) fun _ => True := by
  induction left generalizing slot with
  | zero =>
    unfold Snapshot.walk
    refine guides_bind.mpr ⟨trivial, ?_⟩
    rintro (e | _ | block) <;> trivial
  | succ left ih =>
    unfold Snapshot.walk
    refine guides_bind.mpr ⟨trivial, ?_⟩
    rintro (e | _ | block)
    · trivial
    · exact ih (slot - 1)
    · trivial

theorem resolve_snapshot (endTime : UInt64) (timing : Chain.Timing) (finalizedEpoch maxWalkback : UInt64) :
    SnapshotAction (Snapshot.resolve endTime timing finalizedEpoch maxWalkback) fun _ => True := by
  unfold Snapshot.resolve
  refine guides_bind.mpr (guides_ofExcept (fun plan _ => ?_) trivial)
  split
  · trivial
  · exact guides_bind.mpr ((walk_snapshot _ _ _).mono (fun _ h => h) fun _ _ _ => trivial)

/-- A rewards job is for the interval of the state, with the elapsed intervals counted. -/
theorem launch_snapshot (s : Settings) (state : NetworkState) :
    SnapshotAction (SubmitRewards.launch s state) fun job => ∀ j, job = some j →
      SubmitRewards.DueAt s state j := by
  unfold SubmitRewards.launch
  dsimp only
  split
  · exact nofun
  next hdue =>
  refine guides_bind.mpr (guides_ofExcept (fun elapsed helapsed => ?_) trivial)
  split
  · exact nofun
  refine guides_bind.mpr (guides_ofExcept (fun endTime _ => ?_) trivial)
  rw [guides_bind, guides_log, guides_bind, guides_noting]
  refine ⟨trivial, ?_⟩
  rintro (e | head)
  · trivial
  refine guides_bind.mpr ((resolve_snapshot _ _ _ _).mono (fun _ h => h) ?_)
  rintro ⟨⟩ (target | plan) _
  · rintro j ⟨⟩
    refine ⟨rfl, rfl, helapsed, ?_⟩
    -- no job is called for in the other case
    cases hmember : state.isMember s.node with
    | true => exact .inl rfl
    | false =>
      rw [hmember] at hdue
      exact .inr (by simpa using hdue)
  · exact nofun

theorem SubmitRewards.dueAt_of_launch {s : Settings} {state : NetworkState}
    {t : List (Exchange Request Answer)} {j : SubmitRewards.Job}
    (h : (SubmitRewards.launch s state).run.Ends t (.ok (some j))) : SubmitRewards.DueAt s state j :=
  Program.Follows.path (launch_snapshot s state) h j rfl

/-- The rewards task reads the chains in the foreground, and calls for no other work than its job. -/
theorem submitRewards_upfront (s : Settings) (state : NetworkState) :
    UpfrontAction (SubmitRewards.run s state) fun b => ∀ x, b = some x → ∃ m, Launched s x m := by
  refine guides_bind.mpr ((launch_snapshot s state).upfront.reaches.mono ?_)
  rintro ⟨⟩ (report | job) ⟨_, t, ht⟩
  · trivial
  refine guides_pure.mpr ?_
  intro x hx
  obtain ⟨j, rfl, rfl⟩ := Option.map_eq_some_iff.mp hx
  exact ⟨_, .rewards ⟨state, t, ht⟩⟩

/-- Each task keeps to what is asked in the foreground. -/
theorem tasks_upfront (s : Settings) {t : Task Request Answer} (ht : t ∈ tasks s) (state : NetworkState) :
    UpfrontAction (t.run state) fun b => ∀ x, b = some x → ∃ m, Launched s x m := by
  simp only [tasks, List.mem_cons, List.not_mem_nil, or_false] at ht
  rcases ht with rfl | rfl | rfl
  · refine guides_bind.mpr ((relayPrices_upfront s state).mono (fun _ h => h) ?_)
    rintro ⟨⟩ _ _
    refine guides_pure.mpr ?_
    rintro x ⟨⟩
  · exact submitPrices_upfront s state
  · exact submitRewards_upfront s state

/-! ### Rounds -/

/-- Foregrounds ask what is mild and start what was launched, at any time. -/
theorem launching_bears (s : Settings) :
    (launching s).lead.Bears () Upfront fun b => ∃ m, Launched s b m where
  ask _ hq := ⟨hq.mild, fun _ => rfl⟩
  start _ _ hb := ⟨hb, fun _ => rfl⟩

/-- A round starts no work but what its tasks have called for. -/
theorem round_follows (s : Settings) (c : Controller) :
    (round s c).Follows (launching s).lead () fun _ _ => True := by
  have hload : (launching s).lead.asked.Guides () NetworkState.load (fun _ => True) fun _ _ => True := by
    have hmild : ∀ known q, viewing.asks known q → (launching s).lead.asked.asks () q :=
      fun _ _ hq => hq.mild
    refine ((load_views none).map hmild fun _ _ _ _ => rfl).mono ?_
    rintro _ (report | state) _ <;> trivial
  refine Controller.tick_follows (hload.mono (fun _ h => h) fun _ state _ => ?_) c
  exact ⟨_, _, launching_bears s, fun t ht => tasks_upfront s ht state⟩

theorem launching_valid (s : Settings) : (launching s).Valid (Trigger s) where
  lead := by
    rintro f (⟨c⟩ | ⟨state, ht, c⟩)
    · exact round_follows s c
    · have htask := Controller.runTask_follows (launching_bears s) (tasks_upfront s ht state)
      exact Program.follows_bind.mpr (htask.mono fun _ _ _ => trivial)
  work _ _ h := starts_follows h.starts

/-- Rounds and single tasks keep the discipline, and so does all work that they start. -/
theorem discipline_valid (s : Settings) : (discipline s).Valid (Trigger s) where
  lead f hf := by
    have hasks : ∀ (m : Unit) c, (launching s).lead.asks m c → (discipline s).lead.asks m c := by
      rintro m (q | ⟨span, b⟩) hc
      · exact hc
      · obtain ⟨role, hb⟩ := hc
        exact ⟨role, hb.starts⟩
    have hfollows := ((launching_valid s).lead f hf).map (f := id) hasks fun _ _ _ _ => rfl
    exact hfollows.mono fun _ _ _ => trivial
  work _ _ h := starts_follows h

/-- Whatever is started was launched. -/
theorem launched_of_started {σ : Type} {s : Settings} {w : World σ Request Answer} {st : σ}
    {p : Process σ Request Answer Controller} (h : Process.Reachable w (Trigger s) st p) {n : Nat}
    {b : Background Request Answer} (hb : .started n b ∈ p.log) : ∃ m, Launched s b m := by
  have hkeeps : (launching s).Keeps w (fun _ _ => True) fun _ _ _ => True := by
    constructor <;> simp
  exact (hkeeps.reachable (launching_valid s) trivial h).cast n b hb

/-- A rewards execution is one of a job that was called for. -/
theorem called_of_started {σ : Type} {s : Settings} {w : World σ Request Answer} {st : σ}
    {p : Process σ Request Answer Controller} (h : Process.Reachable w (Trigger s) st p) {n : Nat}
    {b : Background Request Answer} (hb : .started n b ∈ p.log) (hlane : b.lane = SubmitRewards.name) :
    ∃ j : SubmitRewards.Job, b = ⟨SubmitRewards.name, j.execute s⟩ ∧ SubmitRewards.Called s j := by
  obtain ⟨m, hm⟩ := launched_of_started h hb
  cases hm with
  | rewards hcalled => exact ⟨_, rfl, hcalled⟩
  | prices j =>
    have hne : SubmitPrices.name ≠ SubmitRewards.name := by decide
    exact absurd hlane hne

end OracleDuty.Duty
