import OracleDuty.Duty.Round
import OracleDuty.Proofs.Duty.Action
import OracleDuty.Proofs.Schedule
/-!
What the duties count: never a run. So what the controller counts over any course of rounds are its
invocations, and nothing besides.

Main statements: `tasks_leaveRuns` and `rounds_counted`.
-/
namespace OracleDuty.Duty

variable {α β ε : Type}

abbrev Discreet (x : Action α) : Prop := x.run.Writes Line.LeavesRuns

/-! ### The parts of actions -/

theorem leavesRuns_event (spans : List Log.SpanFields) (e : Log.Event) :
    Line.LeavesRuns ⟨spans, .event e⟩ :=
  fun _ => ⟨nofun, nofun⟩

theorem discreet_log (source : Log.Source) (level : Log.Level) (message : String)
    (fields : List (String × Log.Value)) : Discreet (Action.log source level message fields) :=
  ⟨leavesRuns_event [] _, trivial⟩

/-- All counters but those of runs may be counted by the tasks themselves. -/
theorem discreet_count {counter : Counter} (hruns : counter ≠ .taskRuns)
    (hfailed : counter ≠ .failedTaskRuns) (task : String) : Discreet (Action.count counter task) := by
  refine ⟨?_, trivial⟩
  intro name
  constructor
  · rintro ⟨⟩
    exact hruns rfl
  · rintro ⟨⟩
    exact hfailed rfl

theorem discreet_request (q : Request) :
    (Program.request q : Course (Answer q)).Writes Line.LeavesRuns :=
  fun _ => trivial

theorem discreet_ask_noting {course : Course (Except Report α)} (h : course.Writes Line.LeavesRuns)
    (note : String) : Discreet ((ask course).noting note) := by
  rw [Discreet, Action.noting, run_adapt]
  exact h.bind fun _ => trivial

theorem discreet_ofExcept (cause : ε → Cause) (r : Except ε α) : Discreet (Action.ofExcept cause r) := by
  cases r with
  | ok a => trivial
  | error e => trivial

/-- A line is logged, and then the action goes on. -/
theorem discreet_log_bind {source : Log.Source} {level : Log.Level} {message : String}
    {fields : List (String × Log.Value)} {f : Unit → Action α} (hf : ∀ u, Discreet (f u)) :
    Discreet (Action.log source level message fields >>= f) :=
  (discreet_log source level message fields).run_bind hf

/-! ### The tasks -/

namespace RelayPrices

theorem suggestedFee_discreet : Discreet suggestedFee :=
  discreet_ask_noting (discreet_request _) _

/-- Looking for a fee counts no run. -/
theorem terms_discreet (s : Settings) (target : Relay.Target) : Discreet (terms s target) := by
  cases target with
  | arbitrum => exact suggestedFee_discreet.run_bind fun _ => trivial
  | zkSyncEra =>
    refine Program.Writes.run_bind ?_ fun _ => trivial
    unfold configuredFee
    cases s.fees.maxFeePerGas with
    | some fee => trivial
    | none => exact suggestedFee_discreet
  | _ => trivial

/-- A relay counts its submission, and leaves runs to the controller. -/
theorem relay_discreet (s : Settings) (target : Relay.Target) (messenger : Address) :
    Discreet (relay s target messenger) := by
  apply (terms_discreet s target).run_bind
  rintro ⟨params, value⟩
  apply discreet_log_bind
  intro _
  apply Program.Writes.run_bind (discreet_request _)
  intro hash
  refine Program.Writes.run_bind (discreet_count ?_ ?_ name) fun _ => discreet_log _ _ _ _
  · exact Counter.noConfusion
  · exact Counter.noConfusion

/-- No relay of a round counts a run, whatever becomes of the ones before it. -/
theorem relayAll_discreet (s : Settings) (targets : List (Relay.Target × Address)) :
    (relayAll s targets).Writes Line.LeavesRuns := by
  induction targets with
  | nil => trivial
  | cons target rest ih =>
    obtain ⟨target, messenger⟩ := target
    apply Program.Writes.bind (relay_discreet s target messenger)
    rintro (report | _)
    · exact ⟨leavesRuns_event [] _, ih.bind fun _ => trivial⟩
    · exact ih

/-- The round of the task counts no run by itself. -/
theorem run_discreet (s : Settings) (state : NetworkState) : Discreet (run s state) := by
  have hstale : Discreet (staleMessengers s state) := by
    refine Program.Writes.run_bind (discreet_ask_noting (discreet_request _) _) fun flags => ?_
    split
    · trivial
    · trivial
  unfold run
  split
  · exact discreet_log _ _ _ _
  apply hstale.run_bind
  intro stale
  split
  · exact discreet_log _ _ _ _
  split
  · exact discreet_log _ _ _ _
  dsimp only
  split
  · exact discreet_log _ _ _ _
  apply discreet_log_bind
  intro _
  refine Program.Writes.run_bind ((relayAll_discreet s stale).bind fun _ => trivial) fun failures => ?_
  split
  · trivial
  · trivial

end RelayPrices

namespace SubmitPrices

theorem launch_discreet (s : Settings) (state : NetworkState) : Discreet (launch s state) := by
  have hepoch : ∀ time, Discreet (epochAt time state.timing) := by
    intro time
    unfold epochAt
    split
    · trivial
    · trivial
  unfold launch
  dsimp only
  split
  · exact discreet_log_bind fun _ => trivial
  split
  · exact discreet_log_bind fun _ => trivial
  split
  · exact discreet_log_bind fun _ => trivial
  refine Program.Writes.run_bind (discreet_ask_noting (discreet_request _) _) fun time => ?_
  apply (hepoch time).run_bind
  intro epoch
  refine Program.Writes.run_bind (discreet_ask_noting (discreet_request _) _) fun head => ?_
  split
  · exact discreet_log_bind fun _ => trivial
  · trivial

end SubmitPrices

namespace SubmitRewards

/-- However far the walk goes back, it counts nothing. -/
theorem walk_discreet (first : UInt64) (left : Nat) (slot : UInt64) :
    Discreet (Snapshot.walk first left slot) := by
  induction left generalizing slot with
  | zero =>
    unfold Snapshot.walk
    apply Program.Writes.run_bind (discreet_request _)
    rintro (_ | block)
    · exact discreet_log_bind fun _ => trivial
    · exact discreet_log_bind fun _ => trivial
  | succ left ih =>
    unfold Snapshot.walk
    apply Program.Writes.run_bind (discreet_request _)
    rintro (_ | block)
    · exact discreet_log_bind fun _ => ih _
    · exact discreet_log_bind fun _ => trivial

theorem resolve_discreet (endTime : UInt64) (timing : Chain.Timing) (finalizedEpoch maxWalkback : UInt64) :
    Discreet (Snapshot.resolve endTime timing finalizedEpoch maxWalkback) := by
  apply (discreet_ofExcept _ _).run_bind
  intro plan
  split
  · exact discreet_log_bind fun _ => trivial
  · exact (walk_discreet _ _ _).run_bind fun _ => trivial

theorem launch_discreet (s : Settings) (state : NetworkState) : Discreet (launch s state) := by
  unfold launch
  dsimp only
  split
  · exact discreet_log_bind fun _ => trivial
  apply (discreet_ofExcept _ _).run_bind
  intro elapsed
  split
  · exact discreet_log_bind fun _ => trivial
  apply (discreet_ofExcept _ _).run_bind
  intro endTime
  apply discreet_log_bind
  intro _
  refine Program.Writes.run_bind (discreet_ask_noting (discreet_request _) _) fun head => ?_
  apply (resolve_discreet _ _ _ _).run_bind
  rintro (target | ⟨plan, finalizedEpoch⟩)
  · trivial
  · exact discreet_log_bind fun _ => trivial

end SubmitRewards

theorem tasks_leaveRuns (s : Settings) : ∀ t ∈ tasks s, t.LeavesRuns := by
  intro t ht state
  simp only [tasks, List.mem_cons, List.not_mem_nil, or_false] at ht
  obtain rfl | rfl | rfl := ht
  · exact (RelayPrices.run_discreet s state).run_bind fun _ => trivial
  · exact (SubmitPrices.launch_discreet s state).run_bind fun _ => trivial
  · exact (SubmitRewards.launch_discreet s state).run_bind fun _ => trivial

/-- Reading a state counts nothing. -/
theorem load_leavesRuns : Discreet NetworkState.load := by
  have hcontracts : ∀ block, Discreet (NetworkState.contracts block) := by
    intro block
    apply Program.Writes.run_bind (discreet_request _)
    intro interval
    apply Program.Writes.run_bind (discreet_request _)
    intro prices
    exact Program.Writes.run_bind (discreet_request _) fun _ => trivial
  refine Program.Writes.run_bind (discreet_ask_noting (discreet_request _) _) fun timing => ?_
  refine Program.Writes.run_bind (discreet_ask_noting (discreet_request _) _) fun head => ?_
  refine Program.Writes.run_bind (discreet_ask_noting (discreet_request _) _) fun block => ?_
  apply Program.Writes.run_bind (discreet_ask_noting (hcontracts block) _)
  rintro ⟨interval, prices, members⟩
  exact discreet_log_bind fun _ => trivial

/-! ### Rounds -/

/-- The runs that are counted over a course of rounds are the invocations of the tasks, and the failed runs
are those that failed. -/
theorem rounds_counted {s : Settings} {history : List (Tick Request Answer)}
    (h : Scheduled NetworkState.load (tasks s) [] history) (name : String) :
    tally (history.flatMap Tick.journal) .taskRuns name =
        (history.flatMap Tick.calls).countP (·.task.name == name) ∧
      tally (history.flatMap Tick.journal) .failedTaskRuns name =
        (history.flatMap Tick.calls).countP fun i => i.failed && i.task.name == name :=
  h.tally_journal load_leavesRuns (tasks_leaveRuns s) name

end OracleDuty.Duty
