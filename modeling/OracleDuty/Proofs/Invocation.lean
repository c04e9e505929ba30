import OracleDuty.Controller
import OracleDuty.Proofs.Conclusion
import OracleDuty.Proofs.Engine
/-!
Invocations: a task that the controller has run for a state, with all that was asked and written on the way
and what it came to.

Main statements: `runTask_concludes_iff` and `runTasks_concludes_iff`, by which a round of tasks is nothing
but the invocations of its tasks, one after the other.
-/
namespace OracleDuty

variable {Q : Type} {A : Q → Type} {α : Type}

/-- A program asks and writes the same when it is part of a foreground. -/
theorem asForeground_concludes_iff {p : Program Q A α}
    {t : List (Exchange (Command Q A) Command.Answer)} {lines : List Line} {a : α} :
    (Controller.asForeground p).Concludes t lines a ↔
      ∃ u, t = u.map Process.asked ∧ p.Concludes u lines a := by
  constructor
  · intro h
    induction p generalizing t lines with
    | done b =>
      obtain ⟨rfl, rfl, rfl⟩ := Program.concludes_done.mp h
      exact ⟨[], rfl, .done b⟩
    | note line next ih =>
      obtain ⟨rest, rfl, hrest⟩ := Program.concludes_note.mp h
      obtain ⟨u, rfl, hu⟩ := ih hrest
      exact ⟨u, rfl, .note hu⟩
    | ask q next ih =>
      obtain ⟨c, v, rfl, hrest⟩ := Program.concludes_ask.mp h
      obtain ⟨u, rfl, hu⟩ := ih c hrest
      exact ⟨⟨q, c⟩ :: u, rfl, .ask hu⟩
  · rintro ⟨u, rfl, h⟩
    induction h with
    | done a => exact .done a
    | note _ ih => exact .note ih
    | ask _ ih => exact .ask ih

/-- A task that was run for a state, with the lanes as they were when it had ended. -/
structure Invocation (Q : Type) (A : Q → Type) where
  task : Task Q A
  state : NetworkState
  exchanges : List (Exchange Q A)
  lines : List Line
  result : Except Report (Option (Background Q A))
  lanes : Lanes

namespace Invocation

variable (i : Invocation Q A)

/-- What is told of the task is what it can ask, write and come to. -/
def Sound : Prop := (i.task.run i.state).run.Concludes i.exchanges i.lines i.result

def span : Log.SpanFields := Controller.span i.task.name i.state.block

/-- Whether the task has failed. -/
def failed : Bool :=
  match i.result with
  | .error _ => true
  | .ok _ => false

/-- The start of the work that the task calls for. It is accepted if the lane is free. -/
def handover : List (Exchange (Command Q A) Command.Answer) :=
  match i.result with
  | .ok (some b) => [⟨.start i.span b, (i.lanes.take b.lane).1⟩]
  | _ => []

/-- The work that was started. -/
def started? : Option (Background Q A) :=
  match i.result with
  | .ok (some b) => if (i.lanes.take b.lane).1 then some b else none
  | _ => none

def commands : List (Exchange (Command Q A) Command.Answer) :=
  i.exchanges.map Process.asked ++ i.handover

def refusal : List Line :=
  match i.result with
  | .ok (some b) => if (i.lanes.take b.lane).1 then [] else [⟨[i.span], Lane.refusal b.lane⟩]
  | _ => []

def complaint : List Line :=
  match i.result with
  | .ok _ => []
  | .error report => [
    ⟨[], .event (Log.event .controller .error "Task failed"
      (("task", .text i.task.name) :: report.fields))⟩,
    ⟨[], .count .failedTaskRuns i.task.name⟩]

def journal : List Line :=
  ⟨[], .count .taskRuns i.task.name⟩ :: (i.lines.map (Line.within i.span) ++ i.refusal ++ i.complaint)

theorem started?_eq_some_iff {b : Background Q A} :
    i.started? = some b ↔ i.result = .ok (some b) ∧ i.lanes.isTaken b.lane = false := by
  have htake : ∀ lane, (i.lanes.take lane).1 = true ↔ i.lanes.isTaken lane = false := by
    intro lane
    unfold Lanes.take
    split
    next h => simp [h]
    next h => simpa using h
  unfold started?
  rcases i.result with report | _ | b'
  · simp
  · simp
  · dsimp only
    split
    next h =>
      rw [htake] at h
      constructor
      · rintro ⟨⟩
        exact ⟨rfl, h⟩
      · rintro ⟨⟨⟩, -⟩
        rfl
    next h =>
      refine iff_of_false nofun ?_
      rintro ⟨⟨⟩, hfree⟩
      exact h ((htake _).mpr hfree)

end Invocation

/-- Any answer about a lane is one that some lanes give. -/
theorem exists_take (lane : String) (accepted : Bool) : ∃ lanes : Lanes, (lanes.take lane).1 = accepted := by
  cases accepted with
  | true => exact ⟨.empty, rfl⟩
  | false => exact ⟨⟨[lane]⟩, by simp [Lanes.take, Lanes.isTaken]⟩

/-- Handing work over takes one command, and a line if the work is refused. -/
theorem start_concludes_iff {span : Log.SpanFields} {b : Background Q A}
    {t : List (Exchange (Command Q A) Command.Answer)} {lines : List Line} :
    (Controller.start span b).Concludes t lines () ↔
      ∃ lanes : Lanes, t = [⟨.start span b, (lanes.take b.lane).1⟩] ∧
        lines = if (lanes.take b.lane).1 then [] else [⟨[span], Lane.refusal b.lane⟩] := by
  constructor
  · intro h
    obtain ⟨accepted, u, rfl, hrest⟩ := Program.concludes_ask.mp h
    obtain ⟨lanes, hlanes⟩ := exists_take b.lane accepted
    refine ⟨lanes, ?_⟩
    rw [hlanes]
    cases accepted with
    | true =>
      obtain ⟨rfl, rfl, _⟩ := Program.concludes_done.mp hrest
      exact ⟨rfl, rfl⟩
    | false =>
      obtain ⟨rest, rfl, hrefused⟩ := Program.concludes_note.mp hrest
      obtain ⟨rfl, rfl, _⟩ := Program.concludes_done.mp hrefused
      exact ⟨rfl, rfl⟩
  · rintro ⟨lanes, rfl, rfl⟩
    refine .ask ?_
    cases (lanes.take b.lane).1 with
    | true => exact .done ()
    | false => exact .note (.done ())

namespace Controller

variable {t : Task Q A} {state : NetworkState} {T : List (Exchange (Command Q A) Command.Answer)}
  {L : List Line}

/-- Launching a task asks and writes what an invocation of it does, less what the controller writes about
its failure. -/
theorem launch_concludes_iff {outcome : Except Report Unit} :
    (launch t (span t.name state.block) state).Concludes T L outcome ↔
      ∃ i : Invocation Q A, i.task = t ∧ i.state = state ∧ i.Sound ∧ T = i.commands ∧
        L = i.lines.map (Line.within i.span) ++ i.refusal ∧ outcome = i.result.map fun _ => () := by
  constructor
  · intro h
    obtain ⟨r, w, v, k, m, rfl, rfl, htask, hstart⟩ := Program.concludes_bind.mp h
    obtain ⟨lines, rfl, hinner⟩ := Program.concludes_within.mp htask
    obtain ⟨u, rfl, hsound⟩ := asForeground_concludes_iff.mp hinner
    -- the task has failed, has called for no work, or has called for some
    rcases r with report | _ | b
    · obtain ⟨rfl, rfl, rfl⟩ := Program.concludes_done.mp hstart
      exact ⟨⟨t, state, u, lines, .error report, .empty⟩, rfl, rfl, hsound, rfl, rfl, rfl⟩
    · obtain ⟨rfl, rfl, rfl⟩ := Program.concludes_done.mp hstart
      exact ⟨⟨t, state, u, lines, .ok none, .empty⟩, rfl, rfl, hsound, rfl, rfl, rfl⟩
    · obtain ⟨⟨⟩, x, y, k', m', rfl, rfl, hhand, hdone⟩ := Program.concludes_bind.mp hstart
      obtain ⟨rfl, rfl, rfl⟩ := Program.concludes_done.mp hdone
      obtain ⟨lanes, rfl, rfl⟩ := start_concludes_iff.mp hhand
      refine ⟨⟨t, state, u, lines, .ok (some b), lanes⟩, rfl, rfl, hsound, ?_, ?_, rfl⟩
      · rw [List.append_nil]
        rfl
      · rw [List.append_nil]
        rfl
  · rintro ⟨i, rfl, rfl, hsound, rfl, rfl, rfl⟩
    have htask : ((asForeground (i.task.run i.state).run).within i.span).Concludes
        (i.exchanges.map Process.asked) (i.lines.map (Line.within i.span)) i.result :=
      Program.concludes_within.mpr ⟨i.lines, rfl, asForeground_concludes_iff.mpr ⟨i.exchanges, rfl, hsound⟩⟩
    apply Program.concludes_bind.mpr
    refine ⟨i.result, _, i.handover, _, i.refusal, rfl, rfl, htask, ?_⟩
    obtain ⟨task, state, u, lines, report | _ | b, lanes⟩ := i
    · exact .done _
    · exact .done _
    · have hhand : (Controller.start (Controller.span task.name state.block) b).Concludes
          [⟨.start (Controller.span task.name state.block) b, (lanes.take b.lane).1⟩] _ () :=
        start_concludes_iff.mpr ⟨lanes, rfl, rfl⟩
      apply Program.concludes_bind.mpr
      exact ⟨(), _, [], _, [], (List.append_nil _).symm, (List.append_nil _).symm, hhand, .done _⟩

/-- Running a task is an invocation of it. -/
theorem runTask_concludes_iff :
    (runTask state t).Concludes T L () ↔ ∃ i : Invocation Q A, i.task = t ∧ i.state = state ∧
      i.Sound ∧ T = i.commands ∧ L = i.journal := by
  constructor
  · intro h
    obtain ⟨lines, rfl, hafter⟩ := Program.concludes_write_bind.mp h
    obtain ⟨outcome, u, v, k, m, rfl, rfl, hlaunch, hrest⟩ := Program.concludes_bind.mp hafter
    obtain ⟨i, rfl, rfl, hi, rfl, rfl, rfl⟩ := launch_concludes_iff.mp hlaunch
    refine ⟨i, rfl, rfl, hi, ?_⟩
    cases hr : i.result with
    | ok work =>
      rw [hr] at hrest
      obtain ⟨rfl, rfl, _⟩ := Program.concludes_done.mp hrest
      simp [Invocation.journal, Invocation.complaint, hr]
    | error report =>
      rw [hr] at hrest
      obtain ⟨_, rfl, hlog⟩ := Program.concludes_write_bind.mp hrest
      obtain ⟨_, rfl, hcount⟩ := Program.concludes_note.mp hlog
      obtain ⟨rfl, rfl, _⟩ := Program.concludes_done.mp hcount
      simp [Invocation.journal, Invocation.complaint, hr]
  · rintro ⟨i, rfl, rfl, hi, rfl, rfl⟩
    have hlaunch := launch_concludes_iff.mpr ⟨i, rfl, rfl, hi, rfl, rfl, rfl⟩
    apply Program.concludes_write_bind.mpr
    refine ⟨_, rfl, Program.concludes_bind.mpr ?_⟩
    refine ⟨_, i.commands, [], _, i.complaint, (List.append_nil _).symm, rfl, hlaunch, ?_⟩
    -- what is left of the run is to tell of its failure
    unfold Invocation.complaint
    cases i.result with
    | ok work => exact .done ()
    | error report => exact .note (.note (.done ()))

/-- Running tasks is an invocation of each, in their order. -/
theorem runTasks_concludes_iff {ts : List (Task Q A)} :
    (runTasks state ts).Concludes T L () ↔ ∃ is : List (Invocation Q A), is.map (·.task) = ts ∧
      (∀ i ∈ is, i.state = state ∧ i.Sound) ∧ T = is.flatMap Invocation.commands ∧
      L = is.flatMap Invocation.journal := by
  constructor
  · intro h
    induction ts generalizing T L with
    | nil =>
      obtain ⟨rfl, rfl, _⟩ := Program.concludes_done.mp h
      exact ⟨[], rfl, List.forall_mem_nil _, rfl, rfl⟩
    | cons t ts ih =>
      obtain ⟨⟨⟩, u, v, k, m, rfl, rfl, hfirst, hrest⟩ := Program.concludes_bind.mp h
      obtain ⟨i, rfl, rfl, hi, rfl, rfl⟩ := runTask_concludes_iff.mp hfirst
      obtain ⟨is, rfl, his, rfl, rfl⟩ := ih hrest
      exact ⟨i :: is, rfl, List.forall_mem_cons.mpr ⟨⟨rfl, hi⟩, his⟩, rfl, rfl⟩
  · rintro ⟨is, rfl, his, rfl, rfl⟩
    induction is with
    | nil => exact .done ()
    | cons i is ih =>
      obtain ⟨⟨hstate, hi⟩, hrest⟩ := List.forall_mem_cons.mp his
      have hfirst : (runTask state i.task).Concludes i.commands i.journal () :=
        runTask_concludes_iff.mpr ⟨i, rfl, hstate, hi, rfl, rfl⟩
      exact Program.concludes_bind.mpr ⟨(), _, _, _, _, rfl, rfl, hfirst, ih hrest⟩

end Controller

end OracleDuty
