import OracleDuty.Proofs.Invocation
/-!
The ticks of a controller over a whole course: which of them run the tasks, what the tasks are run for, and
what is counted.

Main statements: `ticks_concludes_iff`, by which a course is nothing but ticks that run their tasks for later
and later blocks, and `ticks_schedule`, with what follows for the blocks, the calls and the counts.
-/
namespace OracleDuty

variable {Q : Type} {A : Q → Type}

/-- A tick that has passed: what was asked and written for the read of the state, what was read, and the
invocations of the tasks if they were run. -/
structure Tick (Q : Type) (A : Q → Type) where
  exchanges : List (Exchange Q A)
  lines : List Line
  read : Except Report NetworkState
  invocations : Option (List (Invocation Q A))

namespace Tick

variable (k : Tick Q A)

/-- The block of the state that was read, if it was read. -/
def block? : Option UInt64 := k.read.toOption.map (·.block)

/-- Whether the tasks were run. -/
def ran : Bool := k.invocations.isSome

/-- The block that the tasks were run for, if they were run. -/
def processed? : Option UInt64 := if k.ran then k.block? else none

def calls : List (Invocation Q A) := k.invocations.getD []

def commands : List (Exchange (Command Q A) Command.Answer) :=
  k.exchanges.map Process.asked ++ k.calls.flatMap Invocation.commands

def notice : List Line :=
  match k.read with
  | .error report => [⟨[], .event (Log.event .controller .error "Failed to load network state" report.fields)⟩]
  | .ok state =>
    if k.ran then [⟨[], .intervalIndex state.interval.index⟩]
    else [⟨[], .event (Log.event .controller .debug "No new execution block"
      [("block", .unsigned state.block)])⟩]

def journal : List Line := k.lines ++ k.notice ++ k.calls.flatMap Invocation.journal

/-- The tasks that were run and the states that they were run for. -/
def assignments : Option (List (Task Q A × NetworkState)) :=
  k.invocations.map (List.map fun i => (i.task, i.state))

/-- What the read and the tasks write of their own accord. -/
def own : List Line := k.lines ++ k.calls.flatMap (·.lines)

def Exceeds (past : List (Tick Q A)) : Prop := ∃ b ∈ k.block?, ∀ b' ∈ past.filterMap block?, b' < b

theorem exceeds_congr {k k' : Tick Q A} {past past' : List (Tick Q A)} (hk : k.read = k'.read)
    (hpast : past.map (·.read) = past'.map (·.read)) : k.Exceeds past ↔ k'.Exceeds past' := by
  have hblocks : ∀ past : List (Tick Q A), past.filterMap block? =
      (past.map (·.read)).filterMap fun read => read.toOption.map (·.block) := by
    intro past
    rw [List.filterMap_map]
    rfl
  rw [Exceeds, Exceeds, block?, block?, hk, hblocks, hblocks, hpast]

theorem assignments_of_not_ran {k : Tick Q A} (h : ¬k.ran = true) : k.assignments = none := by
  have hnone : k.invocations = none := by simpa [ran] using h
  rw [assignments, hnone, Option.map_none]

structure Sound (load : ExceptT Report (Program Q A) NetworkState) (tasks : List (Task Q A)) : Prop where
  read : load.run.Concludes k.exchanges k.lines k.read
  tasks : ∀ is, k.invocations = some is → is.map (·.task) = tasks
  calls : ∀ i ∈ k.calls, k.read = .ok i.state ∧ i.Sound

def after (c : Controller) : Controller := ⟨k.processed?.or c.lastBlock⟩

end Tick

/-- Ticks that come after those of the past: the tasks are run exactly at the ticks whose blocks are later
than all that were read before. -/
structure Scheduled (load : ExceptT Report (Program Q A) NetworkState) (tasks : List (Task Q A))
    (past history : List (Tick Q A)) : Prop where
  sound : ∀ k ∈ history, k.Sound load tasks
  due : ∀ earlier k later, history = earlier ++ k :: later →
    (k.ran = true ↔ k.Exceeds (past ++ earlier))

def Controller.Remembers (c : Controller) (past : List (Tick Q A)) : Prop :=
  ∀ b, c.isNew b = true ↔ ∀ b' ∈ past.filterMap Tick.block?, b' < b

section Course

variable {load : ExceptT Report (Program Q A) NetworkState} {tasks : List (Task Q A)}
  {past history earlier later : List (Tick Q A)} {k : Tick Q A} {c c' : Controller}
  {T : List (Exchange (Command Q A) Command.Answer)} {L : List Line}

/-! ### One tick -/

theorem Tick.exceeds_iff (h : c.Remembers past) :
    k.Exceeds past ↔ ∃ b ∈ k.block?, c.isNew b = true := by
  constructor
  · rintro ⟨b, hb, hall⟩
    exact ⟨b, hb, (h b).mpr hall⟩
  · rintro ⟨b, hb, hnew⟩
    exact ⟨b, hb, (h b).mp hnew⟩

namespace Controller

theorem remembers_fresh : fresh.Remembers ([] : List (Tick Q A)) := by
  intro b
  simp [fresh, isNew]

/-- What a controller remembers of the past stays right after one more tick. -/
theorem Remembers.after (h : c.Remembers past) (hk : k.ran = true ↔ k.Exceeds past) :
    (k.after c).Remembers (past ++ [k]) := by
  rw [Tick.exceeds_iff h] at hk
  intro b
  rw [List.filterMap_append, List.forall_mem_append, ← h b, List.filterMap_cons, List.filterMap_nil]
  cases hb : k.block? with
  | none =>
    have hran : k.ran = false := by
      rw [hb] at hk
      simpa using hk
    simp [Tick.after, Tick.processed?, hran]
  | some last =>
    rw [hb] at hk
    simp only [Option.mem_def, Option.some.injEq, exists_eq_left'] at hk
    rw [List.forall_mem_singleton]
    cases hnew : c.isNew last with
    | true =>
      -- the block is the latest now
      have hafter : k.after c = ⟨some last⟩ := by
        rw [Tick.after, Tick.processed?, if_pos (hk.mpr hnew), hb, Option.some_or]
      rw [hafter, isNew, decide_eq_true_iff, h b]
      refine ⟨fun hlt => ⟨fun b' hb' => ?_, hlt⟩, fun hboth => hboth.2⟩
      exact UInt64.lt_trans ((h last).mp hnew b' hb') hlt
    | false =>
      -- some block of the past is as late
      have hran : k.ran = false := by
        rw [← Bool.not_eq_true, hk, hnew]
        exact Bool.false_ne_true
      have hafter : k.after c = c := by
        rw [Tick.after, Tick.processed?, hran, if_neg Bool.false_ne_true, Option.none_or]
      rw [hafter]
      refine ⟨fun hb' => ⟨hb', ?_⟩, fun hboth => hboth.1⟩
      apply UInt64.not_le.mp
      intro hle
      have hlast : c.isNew last = true := by
        rw [h last]
        intro b' hb''
        exact UInt64.lt_of_lt_of_le ((h b).mp hb' b' hb'') hle
      rw [hnew] at hlast
      exact Bool.false_ne_true hlast

/-- Whatever a tick comes to, it has read the state, and has run the tasks exactly if the block is new. -/
theorem exists_tick_of_concludes (h : (tick load tasks c).Concludes T L c') :
    ∃ k : Tick Q A, k.Sound load tasks ∧ (k.ran = true ↔ ∃ b ∈ k.block?, c.isNew b = true) ∧
      T = k.commands ∧ L = k.journal ∧ c' = k.after c := by
  obtain ⟨read, u, v, lines, m, rfl, rfl, hread, hrest⟩ := Program.concludes_bind.mp h
  obtain ⟨u, rfl, hload⟩ := asForeground_concludes_iff.mp hread
  -- the state cannot be read, its block is not new, or the tasks are run
  cases read with
  | error report =>
    obtain ⟨rest, rfl, hdone⟩ := Program.concludes_write_bind.mp hrest
    obtain ⟨rfl, rfl, rfl⟩ := Program.concludes_done.mp hdone
    have hsound : (⟨u, lines, .error report, none⟩ : Tick Q A).Sound load tasks :=
      ⟨hload, by simp, by simp [Tick.calls]⟩
    refine ⟨_, hsound, ?_, ?_, ?_, ?_⟩
    · simp [Tick.ran, Tick.block?, Except.toOption]
    · simp [Tick.commands, Tick.calls]
    · simp [Tick.journal, Tick.notice, Tick.calls]
    · simp [Tick.after, Tick.processed?, Tick.ran]
  | ok state =>
    cases hnew : c.isNew state.block with
    | false =>
      simp only [hnew, Bool.false_eq_true, if_false] at hrest
      obtain ⟨rest, rfl, hdone⟩ := Program.concludes_write_bind.mp hrest
      obtain ⟨rfl, rfl, rfl⟩ := Program.concludes_done.mp hdone
      have hsound : (⟨u, lines, .ok state, none⟩ : Tick Q A).Sound load tasks :=
        ⟨hload, by simp, by simp [Tick.calls]⟩
      refine ⟨_, hsound, ?_, ?_, ?_, ?_⟩
      · simp [Tick.ran, Tick.block?, Except.toOption, hnew]
      · simp [Tick.commands, Tick.calls]
      · simp [Tick.journal, Tick.notice, Tick.calls, Tick.ran]
      · simp [Tick.after, Tick.processed?, Tick.ran]
    | true =>
      simp only [hnew, if_true] at hrest
      obtain ⟨rest, rfl, hrun⟩ := Program.concludes_write_bind.mp hrest
      obtain ⟨⟨⟩, u', v', k, m', rfl, rfl, htasks, hdone⟩ := Program.concludes_bind.mp hrun
      obtain ⟨rfl, rfl, rfl⟩ := Program.concludes_done.mp hdone
      obtain ⟨is, rfl, his, rfl, rfl⟩ := runTasks_concludes_iff.mp htasks
      have hsound : (⟨u, lines, .ok state, some is⟩ : Tick Q A).Sound load (is.map (·.task)) := by
        refine ⟨hload, by simp, ?_⟩
        intro i hi
        obtain ⟨rfl, hsound⟩ := his i hi
        exact ⟨rfl, hsound⟩
      refine ⟨_, hsound, ?_, ?_, ?_, ?_⟩
      · simp [Tick.ran, Tick.block?, Except.toOption, hnew]
      · simp [Tick.commands, Tick.calls]
      · simp [Tick.journal, Tick.notice, Tick.calls, Tick.ran]
      · simp [Tick.after, Tick.processed?, Tick.ran, Tick.block?, Except.toOption]

end Controller

/-- A tick that runs the tasks exactly if the block is new is one that can pass. -/
theorem Tick.Sound.concludes (hk : k.Sound load tasks)
    (hran : k.ran = true ↔ ∃ b ∈ k.block?, c.isNew b = true) :
    (Controller.tick load tasks c).Concludes k.commands k.journal (k.after c) := by
  obtain ⟨u, lines, read, invocations⟩ := k
  obtain ⟨hload, htasks, hcalls⟩ := hk
  have hread : (Controller.asForeground load.run).Concludes (u.map Process.asked) lines read :=
    asForeground_concludes_iff.mpr ⟨u, rfl, hload⟩
  unfold Tick.journal
  rw [List.append_assoc]
  refine Program.concludes_bind.mpr ⟨read, _, _, _, _, rfl, rfl, hread, ?_⟩
  cases read with
  | error report =>
    obtain rfl : invocations = none := by simpa [Tick.ran, Tick.block?, Except.toOption] using hran
    exact .note (.done c)
  | ok state =>
    replace hran : invocations.isSome = true ↔ c.isNew state.block = true := by
      simpa [Tick.ran, Tick.block?, Except.toOption] using hran
    cases hnew : c.isNew state.block with
    | false =>
      obtain rfl : invocations = none := by simpa [hnew] using hran
      simp only [hnew, Bool.false_eq_true, if_false]
      exact .note (.done c)
    | true =>
      obtain ⟨is, rfl⟩ : ∃ is, invocations = some is := Option.isSome_iff_exists.mp (hran.mpr hnew)
      obtain rfl := htasks is rfl
      have hrun : (Controller.runTasks state (is.map (·.task))).Concludes (is.flatMap Invocation.commands)
          (is.flatMap Invocation.journal) () := by
        refine Controller.runTasks_concludes_iff.mpr ⟨is, rfl, ?_, rfl, rfl⟩
        intro i hi
        obtain ⟨hstate, hsound⟩ := hcalls i hi
        exact ⟨(Except.ok.inj hstate).symm, hsound⟩
      simp only [hnew, if_true]
      apply Program.concludes_write_bind.mpr
      refine ⟨_, rfl, Program.concludes_bind.mpr ?_⟩
      exact ⟨(), _, [], _, [], (List.append_nil _).symm, (List.append_nil _).symm, hrun, .done _⟩

/-! ### Many ticks -/

theorem scheduled_nil : Scheduled load tasks past [] := ⟨by simp, by simp⟩

/-- Ticks are scheduled one after the other, each with those before it as its past. -/
theorem scheduled_cons_iff :
    Scheduled load tasks past (k :: history) ↔ k.Sound load tasks ∧
      (k.ran = true ↔ k.Exceeds past) ∧ Scheduled load tasks (past ++ [k]) history := by
  constructor
  · intro h
    refine ⟨h.sound k List.mem_cons_self, ?_, ⟨?_, ?_⟩⟩
    · have hdue := h.due [] k history rfl
      rwa [List.append_nil] at hdue
    · intro k' hk'
      exact h.sound k' (List.mem_cons_of_mem k hk')
    · -- `k` is in the past of the ticks after it
      intro earlier k' later hsplit
      have hdue := h.due (k :: earlier) k' later (congrArg (k :: ·) hsplit)
      rwa [List.append_cons] at hdue
  · rintro ⟨hsound, hdue, hrest⟩
    refine ⟨List.forall_mem_cons.mpr ⟨hsound, hrest.sound⟩, ?_⟩
    intro earlier k' later hsplit
    cases earlier with
    | nil =>
      obtain ⟨rfl, rfl⟩ := List.cons.inj hsplit
      rwa [List.append_nil]
    | cons first earlier =>
      obtain ⟨rfl, hafter⟩ := List.cons.inj hsplit
      rw [List.append_cons]
      exact hrest.due earlier k' later hafter

/-- What is scheduled in two parts is scheduled as a whole, the first part belonging to the past of the second.
-/
theorem scheduled_append_iff :
    Scheduled load tasks past (earlier ++ later) ↔
      Scheduled load tasks past earlier ∧ Scheduled load tasks (past ++ earlier) later := by
  induction earlier generalizing past with
  | nil => simp [scheduled_nil]
  | cons k earlier ih =>
    rw [List.cons_append, scheduled_cons_iff, scheduled_cons_iff, ih, List.append_assoc,
      List.singleton_append]
    simp only [and_assoc]

namespace Controller

/-- A course of ticks is a history that is scheduled after all that the controller remembers. -/
theorem ticks_concludes_iff {count : Nat} (hc : c.Remembers past) :
    (ticks load tasks count c).Concludes T L c' ↔ ∃ history, history.length = count ∧
      Scheduled load tasks past history ∧ T = history.flatMap Tick.commands ∧
      L = history.flatMap Tick.journal ∧ c' = history.foldl (fun c k => k.after c) c := by
  constructor
  · -- by induction on the ticks that are left; what the controller remembers goes along with the past
    intro h
    induction count generalizing c past T L with
    | zero =>
      obtain ⟨rfl, rfl, rfl⟩ := Program.concludes_done.mp h
      exact ⟨[], rfl, scheduled_nil, rfl, rfl, rfl⟩
    | succ count ih =>
      obtain ⟨c₁, u, v, l, m, rfl, rfl, hfirst, hrest⟩ := Program.concludes_bind.mp h
      obtain ⟨k, hsound, hran, rfl, rfl, rfl⟩ := exists_tick_of_concludes hfirst
      have hdue : k.ran = true ↔ k.Exceeds past := hran.trans (Tick.exceeds_iff hc).symm
      obtain ⟨history, rfl, hhistory, rfl, rfl, rfl⟩ := ih (hc.after hdue) hrest
      exact ⟨k :: history, rfl, scheduled_cons_iff.mpr ⟨hsound, hdue, hhistory⟩, rfl, rfl, rfl⟩
  · rintro ⟨history, rfl, hhistory, rfl, rfl, rfl⟩
    induction history generalizing c past with
    | nil => exact .done c
    | cons k history ih =>
      obtain ⟨hsound, hdue, hrest⟩ := scheduled_cons_iff.mp hhistory
      have hfirst : (tick load tasks c).Concludes k.commands k.journal (k.after c) :=
        hsound.concludes (hdue.trans (Tick.exceeds_iff hc))
      exact Program.concludes_bind.mpr ⟨_, _, _, _, _, rfl, rfl, hfirst, ih (hc.after hdue) hrest⟩

end Controller

theorem Controller.lastBlock_injective {c c' : Controller} (h : c.lastBlock = c'.lastBlock) : c = c' :=
  congrArg Controller.mk h

/-- The last block that the tasks were run for is remembered. -/
theorem foldl_after (history : List (Tick Q A)) (c : Controller) :
    (history.foldl (fun c k => k.after c) c).lastBlock =
      (history.filterMap Tick.processed?).getLast?.or c.lastBlock := by
  induction history generalizing c with
  | nil => rfl
  | cons k history ih =>
    rw [List.foldl_cons, ih, List.filterMap_cons]
    cases hk : k.processed? with
    | none => simp [Tick.after, hk]
    | some b => cases hrest : (history.filterMap Tick.processed?).getLast? <;>
        simp [Tick.after, hk, List.getLast?_cons, hrest]

namespace Scheduled

/-- The tasks are run for later blocks only. -/
theorem lt_of_mem_past (h : Scheduled load tasks past history) {k' : Tick Q A} {b b' : UInt64}
    (hk : k ∈ past) (hb : k.block? = some b) (hk' : k' ∈ history) (hb' : k'.processed? = some b') :
    b < b' := by
  obtain ⟨earlier, later, hsplit⟩ := List.append_of_mem hk'
  unfold Tick.processed? at hb'
  split at hb'
  next hran =>
    obtain ⟨b₀, hb₀, hall⟩ := (h.due earlier k' later hsplit).mp hran
    obtain rfl : b' = b₀ := Option.some.inj (hb'.symm.trans hb₀)
    exact hall b (List.mem_filterMap.mpr ⟨k, List.mem_append_left earlier hk, hb⟩)
  next => exact absurd hb' (by simp)

/-- No block is processed twice. -/
theorem pairwise_processed (h : Scheduled load tasks past history) :
    (history.filterMap Tick.processed?).Pairwise (· < ·) := by
  induction history generalizing past with
  | nil => exact .nil
  | cons k history ih =>
    obtain ⟨-, -, hrest⟩ := scheduled_cons_iff.mp h
    rw [List.filterMap_cons]
    cases hk : k.processed? with
    | none => exact ih hrest
    | some b =>
      -- the block is in the past of all ticks that follow
      refine List.pairwise_cons.mpr ⟨?_, ih hrest⟩
      intro b' hb'
      obtain ⟨k', hk', hprocessed⟩ := List.mem_filterMap.mp hb'
      have hblock : k.block? = some b := by
        unfold Tick.processed? at hk
        split at hk
        · exact hk
        · exact absurd hk (by simp)
      exact hrest.lt_of_mem_past (List.mem_append_right past (List.mem_singleton_self k)) hblock hk'
        hprocessed

/-- If the tasks are run, each is run once, in their order, for the state that was read. -/
theorem assignments_eq (h : Scheduled load tasks past history)
    (hsplit : history = earlier ++ k :: later) (hran : k.ran = true) :
    ∃ state, k.read = .ok state ∧ k.assignments = some (tasks.map fun t => (t, state)) := by
  have hsound := h.sound k (hsplit ▸ List.mem_append_right earlier List.mem_cons_self)
  obtain ⟨is, his⟩ := Option.isSome_iff_exists.mp hran
  obtain ⟨b, hb, -⟩ := (h.due earlier k later hsplit).mp hran
  cases hread : k.read with
  | error report => simp [Tick.block?, hread, Except.toOption] at hb
  | ok state =>
    refine ⟨state, rfl, ?_⟩
    have hstate : ∀ i ∈ is, (i.task, i.state) = (i.task, state) := by
      intro i hi
      have hcall := (hsound.calls i (by simpa [Tick.calls, his] using hi)).1
      rw [hread] at hcall
      rw [Except.ok.inj hcall]
    rw [Tick.assignments, his, Option.map_some, ← hsound.tasks is his, List.map_map]
    exact congrArg some (List.map_congr_left hstate)

/-- A tick at which the state could not be read might as well have been left out. -/
theorem leave_out (h : Scheduled load tasks past (earlier ++ k :: later)) (hk : k.block? = none) :
    Scheduled load tasks past (earlier ++ later) := by
  obtain ⟨hearlier, hrest⟩ := scheduled_append_iff.mp h
  obtain ⟨-, -, hlater⟩ := scheduled_cons_iff.mp hrest
  -- no block is added to the past of the ticks that follow
  have hforget : ∀ k' rest, Tick.Exceeds k' (past ++ earlier ++ [k] ++ rest) ↔
      k'.Exceeds (past ++ earlier ++ rest) := by
    intro k' rest
    simp [Tick.Exceeds, List.filterMap_append, hk]
  refine scheduled_append_iff.mpr ⟨hearlier, hlater.sound, ?_⟩
  intro first k' last hsplit
  rw [← hforget]
  exact hlater.due first k' last hsplit

/-- What the tasks come to has no part in which tasks are run, and for which states: the reads alone say. -/
theorem assignments_congr {past' history' : List (Tick Q A)} (h : Scheduled load tasks past history)
    (h' : Scheduled load tasks past' history') (hpast : past.map (·.read) = past'.map (·.read))
    (hreads : history.map (·.read) = history'.map (·.read)) :
    history.map Tick.assignments = history'.map Tick.assignments := by
  induction history generalizing past past' history' with
  | nil =>
    obtain rfl : history' = [] := by simpa using hreads.symm
    rfl
  | cons k history ih =>
    obtain ⟨k', rest, rfl, hk, hrest⟩ := List.map_eq_cons_iff.mp hreads.symm
    -- the same reads find the same blocks new
    have hran : k.ran = true ↔ k'.ran = true := by
      rw [h.due [] k history rfl, h'.due [] k' rest rfl, List.append_nil, List.append_nil]
      exact Tick.exceeds_congr hk.symm hpast
    have hfirst : k.assignments = k'.assignments := by
      by_cases hk' : k'.ran = true
      · have hsplit : ∀ (k : Tick Q A) rest, k :: rest = [] ++ k :: rest := fun _ _ => rfl
        obtain ⟨state, hread, hstate⟩ := h.assignments_eq (hsplit k history) (hran.mpr hk')
        obtain ⟨state', hread', hstate'⟩ := h'.assignments_eq (hsplit k' rest) hk'
        obtain rfl : state = state' := Except.ok.inj (hread.symm.trans (hk.symm.trans hread'))
        rw [hstate, hstate']
      · rw [Tick.assignments_of_not_ran (fun hk => hk' (hran.mp hk)), Tick.assignments_of_not_ran hk']
    rw [List.map_cons, List.map_cons, hfirst]
    refine congrArg (k'.assignments :: ·) (ih (scheduled_cons_iff.mp h).2.2
      (scheduled_cons_iff.mp h').2.2 ?_ hrest.symm)
    rw [List.map_append, List.map_append, hpast, List.map_singleton, List.map_singleton, hk]

end Scheduled

/-! ### What is counted -/

/-- An invocation counts one run, and one failed run if the task has failed. -/
theorem Invocation.tally_journal (i : Invocation Q A) (name : String) :
    tally i.journal .taskRuns name =
        [i].countP (·.task.name == name) + tally i.lines .taskRuns name ∧
      tally i.journal .failedTaskRuns name =
        [i].countP (fun i => i.failed && i.task.name == name) + tally i.lines .failedTaskRuns name := by
  -- a span does not change what is counted
  have hinner : ∀ counter, tally (i.lines.map (Line.within i.span)) counter name =
      tally i.lines counter name := by
    intro counter
    rw [tally, List.countP_map]
    rfl
  have hrefusal : ∀ counter, tally i.refusal counter name = 0 := by
    intro counter
    unfold Invocation.refusal
    split
    · split
      · rfl
      · rfl
    · rfl
  have hjournal : ∀ counter, tally i.journal counter name =
      (if Counter.taskRuns == counter && i.task.name == name then 1 else 0) +
        tally i.lines counter name + tally i.complaint counter name := by
    intro counter
    rw [Invocation.journal, ← List.singleton_append, tally_append, tally_append, tally_append, hinner,
      hrefusal, tally, List.countP_singleton, Line.counts_count]
    omega
  rw [hjournal, hjournal, List.countP_singleton, List.countP_singleton]
  cases hresult : i.result with
  | ok work => simp [tally, Invocation.complaint, Invocation.failed, hresult]
  | error report =>
    simp only [tally, Invocation.complaint, Invocation.failed, hresult, List.countP_cons, List.countP_nil,
      Line.counts_count]
    simp [Line.counts]
    omega

/-- What the invocations count adds up, and the controller counts nothing besides. -/
theorem Tick.tally_journal {counter : Counter} {name : String} {f : Invocation Q A → Bool}
    (hf : ∀ i, tally i.journal counter name = [i].countP f + tally i.lines counter name)
    (history : List (Tick Q A)) :
    tally (history.flatMap Tick.journal) counter name =
      (history.flatMap Tick.calls).countP f + tally (history.flatMap Tick.own) counter name := by
  have hcalls : ∀ is : List (Invocation Q A), tally (is.flatMap Invocation.journal) counter name =
      is.countP f + tally (is.flatMap (·.lines)) counter name := by
    intro is
    induction is with
    | nil => rfl
    | cons i is ih =>
      have hi := hf i
      rw [List.flatMap_cons, List.flatMap_cons, tally_append, tally_append, ih,
        ← List.singleton_append, List.countP_append]
      omega
  have hnotice : ∀ k : Tick Q A, tally k.notice counter name = 0 := by
    intro k
    unfold Tick.notice
    split
    · rfl
    · split
      · rfl
      · rfl
  induction history with
  | nil => rfl
  | cons k history ih =>
    have hk := hcalls k.calls
    rw [List.flatMap_cons, List.flatMap_cons, List.flatMap_cons, List.countP_append, tally_append,
      tally_append, ih, Tick.journal, Tick.own, tally_append, tally_append, tally_append, hnotice]
    omega

/-- Whether a line counts no run: runs are left to the controller to count. -/
def Line.LeavesRuns (l : Line) : Prop :=
  ∀ task, l.entry ≠ .count .taskRuns task ∧ l.entry ≠ .count .failedTaskRuns task

def Task.LeavesRuns (t : Task Q A) : Prop := ∀ state, (t.run state).run.Writes Line.LeavesRuns

/-- Lines that leave runs to the controller do not change the counts. -/
theorem tally_of_leavesRuns {lines : List Line} (h : ∀ l ∈ lines, l.LeavesRuns) (name : String) :
    tally lines .taskRuns name = 0 ∧ tally lines .failedTaskRuns name = 0 := by
  unfold tally
  rw [List.countP_eq_zero, List.countP_eq_zero]
  constructor
  · intro l hl
    simpa [Line.counts] using (h l hl name).1
  · intro l hl
    simpa [Line.counts] using (h l hl name).2

/-- What the reads and the tasks write of their own accord counts no run. -/
theorem Tick.Sound.own_leavesRuns (hk : k.Sound load tasks) (hload : load.run.Writes Line.LeavesRuns)
    (htasks : ∀ t ∈ tasks, t.LeavesRuns) : ∀ l ∈ k.own, l.LeavesRuns := by
  unfold Tick.own
  rw [List.forall_mem_append]
  refine ⟨hk.read.writes hload, ?_⟩
  intro l hl
  obtain ⟨i, hi, hli⟩ := List.mem_flatMap.mp hl
  have htask : i.task ∈ tasks := by
    cases his : k.invocations with
    | none => simp [Tick.calls, his] at hi
    | some is =>
      rw [← hk.tasks is his]
      exact List.mem_map_of_mem (by simpa [Tick.calls, his] using hi)
  exact (hk.calls i hi).2.writes (htasks i.task htask i.state) l hli

/-- If runs are left to the controller to count, none is counted but by the controller. -/
theorem Scheduled.tally_own (h : Scheduled load tasks past history)
    (hload : load.run.Writes Line.LeavesRuns) (htasks : ∀ t ∈ tasks, t.LeavesRuns) (name : String) :
    tally (history.flatMap Tick.own) .taskRuns name = 0 ∧
      tally (history.flatMap Tick.own) .failedTaskRuns name = 0 := by
  apply tally_of_leavesRuns
  intro l hl
  obtain ⟨k, hk, hlk⟩ := List.mem_flatMap.mp hl
  exact (h.sound k hk).own_leavesRuns hload htasks l hlk

/-- The invocations of a course, and those that failed, are what is counted. -/
theorem Scheduled.tally_journal (h : Scheduled load tasks past history)
    (hload : load.run.Writes Line.LeavesRuns) (htasks : ∀ t ∈ tasks, t.LeavesRuns) (name : String) :
    tally (history.flatMap Tick.journal) .taskRuns name =
        (history.flatMap Tick.calls).countP (·.task.name == name) ∧
      tally (history.flatMap Tick.journal) .failedTaskRuns name =
        (history.flatMap Tick.calls).countP fun i => i.failed && i.task.name == name := by
  obtain ⟨hruns, hfailed⟩ := h.tally_own hload htasks name
  constructor
  · rw [Tick.tally_journal (fun i => (i.tally_journal name).1), hruns, Nat.add_zero]
  · rw [Tick.tally_journal (fun i => (i.tally_journal name).2), hfailed, Nat.add_zero]

/-! ### The schedule -/

namespace Controller

/-- Over any course of ticks the tasks are run exactly at the ticks that read a state whose block is later
than all that were read before; each task is then run once, in their order, for that state. The blocks that
the tasks are run for increase strictly. A tick that reads no state changes nothing, and what the tasks come
to has no part in what is run later. Each run is counted, and so is each run that failed; nothing else is, if
the reads and the tasks leave that to the controller. -/
theorem ticks_schedule (load : ExceptT Report (Program Q A) NetworkState) (tasks : List (Task Q A))
    (count : Nat) (T : List (Exchange (Command Q A) Command.Answer)) (L : List Line) (c : Controller) :
    ((ticks load tasks count .fresh).Concludes T L c ↔ ∃ history, history.length = count ∧
      Scheduled load tasks [] history ∧ T = history.flatMap Tick.commands ∧
      L = history.flatMap Tick.journal ∧ c.lastBlock = (history.filterMap Tick.processed?).getLast?) ∧
    ∀ history, Scheduled load tasks [] history →
      (∀ earlier k later, history = earlier ++ k :: later →
        (k.ran = true ↔ ∃ b ∈ k.block?, ∀ b' ∈ earlier.filterMap Tick.block?, b' < b) ∧
        (k.ran = true →
          ∃ state, k.read = .ok state ∧ k.assignments = some (tasks.map fun t => (t, state))) ∧
        (k.block? = none → k.calls = [] ∧ k.processed? = none ∧
          Scheduled load tasks [] (earlier ++ later))) ∧
      (history.filterMap Tick.processed?).Pairwise (· < ·) ∧
      (∀ history', Scheduled load tasks [] history' → history.map (·.read) = history'.map (·.read) →
        history.map Tick.assignments = history'.map Tick.assignments) ∧
      (∀ name,
        tally (history.flatMap Tick.journal) .taskRuns name =
          (history.flatMap Tick.calls).countP (·.task.name == name) +
            tally (history.flatMap Tick.own) .taskRuns name ∧
        tally (history.flatMap Tick.journal) .failedTaskRuns name =
          (history.flatMap Tick.calls).countP (fun i => i.failed && i.task.name == name) +
            tally (history.flatMap Tick.own) .failedTaskRuns name) ∧
      (load.run.Writes Line.LeavesRuns → (∀ t ∈ tasks, t.LeavesRuns) → ∀ name,
        tally (history.flatMap Tick.journal) .taskRuns name =
          (history.flatMap Tick.calls).countP (·.task.name == name) ∧
        tally (history.flatMap Tick.journal) .failedTaskRuns name =
          (history.flatMap Tick.calls).countP fun i => i.failed && i.task.name == name) := by
  constructor
  · -- a controller is its last block, and that is the block of the last tick that ran the tasks
    have hlast : ∀ history : List (Tick Q A), c = history.foldl (fun c k => k.after c) .fresh ↔
        c.lastBlock = (history.filterMap Tick.processed?).getLast? := by
      intro history
      have hfold := (foldl_after history .fresh).trans Option.or_none
      rw [← hfold]
      exact ⟨congrArg lastBlock, lastBlock_injective⟩
    rw [ticks_concludes_iff remembers_fresh]
    simp only [hlast]
  · intro history h
    refine ⟨?_, h.pairwise_processed, ?_, ?_, h.tally_journal⟩
    · rintro earlier k later rfl
      refine ⟨h.due earlier k later rfl, h.assignments_eq rfl, ?_⟩
      intro hk
      have hran : ¬k.ran = true := by
        rw [h.due earlier k later rfl]
        rintro ⟨b, hb, -⟩
        rw [hk] at hb
        exact absurd hb (by simp)
      refine ⟨?_, if_neg hran, h.leave_out hk⟩
      have hnone : k.invocations = none := by simpa [Tick.ran] using hran
      rw [Tick.calls, hnone, Option.getD_none]
    · intro history' h' hreads
      exact h.assignments_congr h' rfl hreads
    · intro name
      exact ⟨Tick.tally_journal (fun i => (i.tally_journal name).1) history,
        Tick.tally_journal (fun i => (i.tally_journal name).2) history⟩

end Controller

end Course

namespace Tick.Sample

def load : ExceptT Report (Program Unit fun _ => Except Report NetworkState) NetworkState :=
  ExceptT.mk (Program.request ())

def tasks : List (Task Unit fun _ => Except Report NetworkState) :=
  [⟨"failing", fun _ => throw (.of (.plain "refused"))⟩, ⟨"idle", fun _ => return none⟩]

def state (block : UInt64) : NetworkState := ⟨block, 0, ⟨0, 12, 32⟩, ⟨0, 0, 0⟩, ⟨false, 0, 0⟩, []⟩

def reads (block : UInt64) (ran : Bool) : Tick Unit fun _ => Except Report NetworkState where
  exchanges := [⟨(), .ok (state block)⟩]
  lines := []
  read := .ok (state block)
  invocations := if ran then some [
      ⟨⟨"failing", fun _ => throw (.of (.plain "refused"))⟩, state block, [], [],
        .error (.of (.plain "refused")), .empty⟩,
      ⟨⟨"idle", fun _ => return none⟩, state block, [], [], .ok none, .empty⟩]
    else none

def missed : Tick Unit fun _ => Except Report NetworkState :=
  ⟨[⟨(), .error (.of (.plain "timeout"))⟩], [], .error (.of (.plain "timeout")), none⟩

def history : List (Tick Unit fun _ => Except Report NetworkState) :=
  [reads 5 true, missed, reads 3 false, reads 5 false, reads 7 true]

theorem reads_sound (block : UInt64) (ran : Bool) : (reads block ran).Sound load tasks where
  read := .ask (.done _)
  tasks := by
    intro is his
    cases ran with
    | true => exact Option.some.inj his ▸ rfl
    | false => exact absurd his nofun
  calls := by
    intro i hi
    cases ran with
    | true =>
      obtain rfl | rfl : i = _ ∨ i = _ := by simpa [reads, Tick.calls] using hi
      · exact ⟨rfl, .done _⟩
      · exact ⟨rfl, .done _⟩
    | false => exact absurd hi List.not_mem_nil

theorem missed_sound : missed.Sound load tasks :=
  ⟨.ask (.done _), nofun, nofun⟩

theorem scheduled : Scheduled load tasks [] history := by
  have hlatest : ∀ b : UInt64, 3 = b ∨ 5 = b → b < 7 := by
    rintro b (rfl | rfl)
    · decide
    · decide
  simp only [history, scheduled_cons_iff, scheduled_nil, reads_sound, missed_sound, true_and, and_true]
  simpa [Tick.Exceeds, Tick.block?, Tick.ran, Except.toOption, reads, missed, state] using hlatest

theorem load_leavesRuns : load.run.Writes Line.LeavesRuns := fun _ => trivial

theorem tasks_leaveRuns : ∀ t ∈ tasks, t.LeavesRuns := by
  intro t ht state
  obtain rfl | rfl : t = _ ∨ t = _ := by simpa [tasks] using ht
  · trivial
  · trivial

end Tick.Sample

theorem Controller.ticks_schedule_sample :
    (ticks Tick.Sample.load Tick.Sample.tasks 5 .fresh).Concludes
      (Tick.Sample.history.flatMap Tick.commands) (Tick.Sample.history.flatMap Tick.journal) ⟨some 7⟩ ∧
    (Tick.Sample.history.filterMap Tick.processed?).Pairwise (· < ·) ∧
    Tick.Sample.history.map Tick.ran = [true, false, false, false, true] ∧
    tally (Tick.Sample.history.flatMap Tick.journal) .taskRuns "failing" = 2 ∧
    tally (Tick.Sample.history.flatMap Tick.journal) .failedTaskRuns "failing" = 2 ∧
    tally (Tick.Sample.history.flatMap Tick.journal) .taskRuns "idle" = 2 ∧
    tally (Tick.Sample.history.flatMap Tick.journal) .failedTaskRuns "idle" = 0 := by
  obtain ⟨hrun, hall⟩ := ticks_schedule Tick.Sample.load Tick.Sample.tasks 5
    (Tick.Sample.history.flatMap Tick.commands) (Tick.Sample.history.flatMap Tick.journal) ⟨some 7⟩
  obtain ⟨-, hblocks, -, -, hexact⟩ := hall Tick.Sample.history Tick.Sample.scheduled
  have hcounts := hexact Tick.Sample.load_leavesRuns Tick.Sample.tasks_leaveRuns
  refine ⟨hrun.mpr ⟨_, rfl, Tick.Sample.scheduled, rfl, rfl, rfl⟩, hblocks, rfl, ?_, ?_, ?_, ?_⟩
  · exact (hcounts "failing").1.trans (by decide)
  · exact (hcounts "failing").2.trans (by decide)
  · exact (hcounts "idle").1.trans (by decide)
  · exact (hcounts "idle").2.trans (by decide)

end OracleDuty
