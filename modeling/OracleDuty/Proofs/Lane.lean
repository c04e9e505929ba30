import Mathlib.Data.List.Nodup
import OracleDuty.Controller
import OracleDuty.Proofs.Engine
/-!
Lanes over whole courses: work is handed over, executions act, and executions end, in any order. A lane holds
at most one execution, it is taken exactly while there is one, and it is free again however the execution
ends. Work is handed over by the name of its lane, so that it does not matter who hands it over.

Main statements: `single_flight`, and `Engine.Course.proceedAll`, by which the engine goes through such courses.
-/
namespace OracleDuty

variable {σ Q : Type} {A : Q → Type}

def recorded (journal : List Line) (entry : Entry) : Nat := journal.countP fun l => l.entry == entry

/-- A world that keeps each line of the journal, and writes none by itself. -/
structure World.Journals (w : World σ Q A) (journal : σ → List Line) : Prop where
  write : ∀ line s, journal (w.write line s) = journal s ++ [line]
  accept : ∀ q s, journal (w.accept q s).2 = journal s
  answer : ∀ q s, journal (w.answer q s).2 = journal s

def Act.entries : Act Q A → List Entry
  | .write line => [line.entry]
  | _ => []

/-- What happens around an engine. -/
inductive Happening (Q : Type) (A : Q → Type) where
  | handed (b : Background Q A) (number : Option Nat)
  | acted (number : Nat) (act : Act Q A)
  | ended (number : Nat) (lane : String) (outcome : Outcome)
  | aside (act : Act Q A)

namespace Happening

variable (lane : String)

def accepts : Happening Q A → Bool
  | handed b (some _) => b.lane == lane
  | _ => false

def ends : Happening Q A → Bool
  | ended _ l _ => l == lane
  | _ => false

def fails : Happening Q A → Bool
  | ended _ l outcome => l == lane && !outcome.isSuccess
  | _ => false

def own : Happening Q A → List Entry
  | acted _ act => act.entries
  | aside act => act.entries
  | _ => []

def entries : Happening Q A → List Entry
  | handed b none => [Lane.refusal b.lane]
  | ended _ l outcome => Lane.endEntries l outcome
  | x => x.own

def events : Happening Q A → List (Event Q A)
  | handed b (some n) => [.started n b]
  | acted n act => act.events (some n)
  | aside act => act.events none
  | _ => []

end Happening

namespace Engine

def incomplete (e : Engine σ Q A) (lane : String) : Nat := e.executions.countP fun x => x.lane == lane

inductive Turn (w : World σ Q A) : Engine σ Q A → Happening Q A → Engine σ Q A → Prop where
  | hand (e : Engine σ Q A) (span : Log.SpanFields) (b : Background Q A) :
    Turn w e (.handed b (if (e.start span b).1 then some e.started else none))
      ((Controller.start span b).run (Engine.foreground w) e).2
  | act {lanes : Lanes} {before after : List (Execution Q A)} {started : Nat} {s s' : σ}
    {x : Execution Q A} {p : Progress Q A (Except Report Unit)} {act : Act Q A}
    (hx : x.progress.Moves act (some p)) (hw : w.Moves s act s') :
    Turn w ⟨lanes, before ++ x :: after, started, s⟩ (.acted x.number act)
      ⟨lanes, before ++ { x with progress := p } :: after, started, s'⟩
  | panic {lanes : Lanes} {before after : List (Execution Q A)} {started : Nat} {s s' : σ}
    {x : Execution Q A} {q : Q} {reason : Option String}
    (hx : x.progress.Moves (.panic q reason) none) (hw : w.Moves s (.panic q reason) s') :
    Turn w ⟨lanes, before ++ x :: after, started, s⟩ (.ended x.number x.lane (.panicked reason))
      (finish w x (.panicked reason) ⟨lanes, before ++ after, started, s'⟩)
  | complete {lanes : Lanes} {before after : List (Execution Q A)} {started : Nat} {s : σ}
    {x : Execution Q A} {result : Except Report Unit} (hx : x.progress = .ready (.done result)) :
    Turn w ⟨lanes, before ++ x :: after, started, s⟩ (.ended x.number x.lane (.completed result))
      (finish w x (.completed result) ⟨lanes, before ++ after, started, s⟩)
  | aside {e : Engine σ Q A} {act : Act Q A} {s' : σ} (hw : w.Moves e.world act s') :
    Turn w e (.aside act) { e with world := s' }

/-- All that has happened since nothing was under way, the latest first. -/
inductive Course (w : World σ Q A) (s : σ) : Engine σ Q A → List (Happening Q A) → Prop where
  | idle : Course w s (idle s) []
  | turn {e e' : Engine σ Q A} {past : List (Happening Q A)} {x : Happening Q A}
    (h : Course w s e past) (ht : Turn w e x e') : Course w s e' (x :: past)

variable {w : World σ Q A} {s : σ} {e e' : Engine σ Q A} {past : List (Happening Q A)}
  {x : Happening Q A} {lane : String}

/-! ### Handing work over -/

theorem start_eq_of_free (span : Log.SpanFields) {b : Background Q A}
    (h : e.lanes.isTaken b.lane = false) : e.start span b = (true, { e with
      lanes := ⟨b.lane :: e.lanes.inFlight⟩
      executions := e.executions ++ [⟨e.started, b.lane, span, .ready (b.work.run.within span)⟩]
      started := e.started + 1 }) := by
  simp only [start, Lanes.take, h, Bool.false_eq_true, if_false]

theorem start_eq_of_taken (span : Log.SpanFields) {b : Background Q A}
    (h : e.lanes.isTaken b.lane = true) : e.start span b = (false, e) := by
  simp only [start, Lanes.take, h, if_true]

/-- Work that is accepted stands at its beginning; nothing else is changed by it. -/
theorem hand_eq_of_free (span : Log.SpanFields) {b : Background Q A}
    (h : e.lanes.isTaken b.lane = false) :
    ((Controller.start span b).run (foreground w) e).2 = (e.start span b).2 := by
  rw [start_eq_of_free span h]
  simp only [Controller.start, Program.run, Program.request, bind, Program.bind, Program.advance,
    foreground, start_eq_of_free span h, Bool.not_true, Bool.false_eq_true, if_false]
  rfl

/-- Of work that is refused only a line in the journal is left. -/
theorem hand_eq_of_taken (span : Log.SpanFields) {b : Background Q A}
    (h : e.lanes.isTaken b.lane = true) :
    ((Controller.start span b).run (foreground w) e).2 =
      { e with world := w.write ⟨[span], Lane.refusal b.lane⟩ e.world } := by
  simp only [Controller.start, Program.run, Program.request, bind, Program.bind, Program.advance,
    foreground, start_eq_of_taken span h, Bool.not_false, if_true]
  rfl

/-- Work that is handed over to a free lane gets the next number. -/
theorem Turn.accepted (span : Log.SpanFields) {b : Background Q A}
    (h : e.lanes.isTaken b.lane = false) :
    Turn w e (.handed b (some e.started)) { e with
      lanes := ⟨b.lane :: e.lanes.inFlight⟩
      executions := e.executions ++ [⟨e.started, b.lane, span, .ready (b.work.run.within span)⟩]
      started := e.started + 1 } := by
  have hturn := Turn.hand (w := w) e span b
  rw [hand_eq_of_free span h, start_eq_of_free span h] at hturn
  exact hturn

theorem Turn.refused (span : Log.SpanFields) {b : Background Q A}
    (h : e.lanes.isTaken b.lane = true) :
    Turn w e (.handed b none) { e with world := w.write ⟨[span], Lane.refusal b.lane⟩ e.world } := by
  have hturn := Turn.hand (w := w) e span b
  rw [hand_eq_of_taken span h, start_eq_of_taken span h] at hturn
  exact hturn

theorem start_accepts_iff (span : Log.SpanFields) (b : Background Q A) :
    (e.start span b).1 = true ↔ e.lanes.isTaken b.lane = false := by
  cases h : e.lanes.isTaken b.lane with
  | false => simp [start_eq_of_free span h]
  | true => simp [start_eq_of_taken span h]

/-! ### The executions in a lane -/

theorem incomplete_eq_count (e : Engine σ Q A) (lane : String) :
    e.incomplete lane = (e.executions.map (·.lane)).count lane := by
  rw [incomplete, List.count_eq_countP, List.countP_map]
  rfl

theorem incomplete_middle (lanes : Lanes) (before after : List (Execution Q A)) (started : Nat) (s : σ)
    (x : Execution Q A) : (⟨lanes, before ++ x :: after, started, s⟩ : Engine σ Q A).incomplete lane =
      (⟨lanes, before ++ after, started, s⟩ : Engine σ Q A).incomplete lane +
        if x.lane == lane then 1 else 0 := by
  simp only [incomplete, List.countP_append, List.countP_cons]
  omega

theorem incomplete_finish (x : Execution Q A) (outcome : Outcome) (e : Engine σ Q A) :
    (finish w x outcome e).incomplete lane = e.incomplete lane := rfl

/-- A start adds one execution to its lane if it is accepted. -/
theorem incomplete_start (span : Log.SpanFields) (b : Background Q A) :
    ((Controller.start span b).run (foreground w) e).2.incomplete lane =
      e.incomplete lane + if (e.start span b).1 && b.lane == lane then 1 else 0 := by
  cases h : e.lanes.isTaken b.lane with
  | true =>
    rw [hand_eq_of_taken span h, start_eq_of_taken span h]
    rfl
  | false =>
    rw [hand_eq_of_free span h, start_eq_of_free span h]
    simp [incomplete, List.countP_append, List.countP_cons]

theorem isTaken_finish_self (x : Execution Q A) (outcome : Outcome) (e : Engine σ Q A) :
    (finish w x outcome e).lanes.isTaken x.lane = false := by
  change (e.lanes.free x.lane).isTaken x.lane = false
  simp [Lanes.isTaken_free]

namespace Turn

/-- Executions are added by what is accepted and taken away by what ends. -/
theorem balance (h : Turn w e x e') (lane : String) :
    [x].countP (Happening.accepts lane) + e.incomplete lane =
      [x].countP (Happening.ends lane) + e'.incomplete lane := by
  cases h with
  | hand e span b =>
    rw [incomplete_start]
    cases (e.start span b).1 <;> simp [Happening.accepts, Happening.ends, Nat.add_comm]
  | act hx hw =>
    rw [incomplete_middle, incomplete_middle]
    simp [Happening.accepts, Happening.ends, incomplete]
  | panic hx hw =>
    rw [incomplete_finish, incomplete_middle]
    simp [Happening.accepts, Happening.ends, incomplete, Nat.add_comm]
  | complete hx =>
    rw [incomplete_finish, incomplete_middle]
    simp [Happening.accepts, Happening.ends, incomplete, Nat.add_comm]
  | aside hw => simp [Happening.accepts, Happening.ends, incomplete]

/-- What happens around an engine happens to a process. -/
theorem sound (h : Turn w e x e') {log : List (Event Q A)}
    (hs : (⟨e, none, log⟩ : Process σ Q A Unit).Sound) :
    (⟨e', none, x.events ++ log⟩ : Process σ Q A Unit).Sound := by
  have hstep : ∀ {p p' : Process σ Q A Unit}, Process.Step w (fun _ => False) p p' → p.Sound → p'.Sound :=
    fun h => h.sound
  cases h with
  | hand e span b =>
    cases ht : e.lanes.isTaken b.lane with
    | true =>
      rw [hand_eq_of_taken span ht, start_eq_of_taken span ht]
      exact hs.mono (.refl _) hs.taken rfl rfl
    | false =>
      rw [hand_eq_of_free span ht, start_eq_of_free span ht]
      exact hs.start span ht
  | act hx hw => exact hstep (.work hx hw) hs
  | panic hx hw => exact hstep (.panic hx hw) hs
  | complete hx => exact hstep (.complete hx) hs
  | aside hw => exact hs.lead _

/-- A lane that only a lone execution can take is taken exactly while there is one. -/
theorem taken (h : Turn w e x e') (hs : (e.executions.map (·.lane)).Nodup)
    (ht : e.lanes.isTaken lane = true ↔ 0 < e.incomplete lane) :
    e'.lanes.isTaken lane = true ↔ 0 < e'.incomplete lane := by
  -- when a lone execution ends there is none left in its lane
  have hfinish : ∀ {lanes : Lanes} {before after : List (Execution Q A)} {started : Nat} {s s' : σ}
      {x : Execution Q A} {outcome : Outcome}, ((before ++ x :: after).map (·.lane)).Nodup →
      (lanes.isTaken lane = true ↔ 0 < (⟨lanes, before ++ x :: after, started, s⟩ :
        Engine σ Q A).incomplete lane) →
      ((finish w x outcome ⟨lanes, before ++ after, started, s'⟩).lanes.isTaken lane = true ↔
        0 < (finish w x outcome ⟨lanes, before ++ after, started, s'⟩).incomplete lane) := by
    intro lanes before after started s s' x outcome hs ht
    change (lanes.free x.lane).isTaken lane = true ↔ _
    rw [Lanes.isTaken_free, Bool.and_eq_true, ht, incomplete_middle, incomplete_finish]
    by_cases hl : x.lane = lane
    · subst hl
      have hnone : (⟨lanes, before ++ after, started, s'⟩ : Engine σ Q A).incomplete x.lane = 0 := by
        rw [incomplete, List.countP_eq_zero]
        intro y hy
        simpa using Process.ne_of_nodup_map hs hy
      simp [hnone]
    · have hne : (x.lane == lane) = false := by simpa using hl
      simp [hne, incomplete, Ne.symm hl]
  cases h with
  | hand e span b =>
    cases hb : e.lanes.isTaken b.lane with
    | true =>
      rw [hand_eq_of_taken span hb]
      exact ht
    | false =>
      rw [incomplete_start, hand_eq_of_free span hb, start_eq_of_free span hb]
      simp only [Lanes.isTaken] at ht ⊢
      by_cases hl : b.lane = lane
      · simp [hl]
      · simpa [hl, Ne.symm hl] using ht
  | act hx hw =>
    rw [incomplete_middle] at ht ⊢
    exact ht
  | panic hx hw => exact hfinish hs ht
  | complete hx => exact hfinish hs ht
  | aside hw => exact ht

end Turn

end Engine

/-! ### The journal -/

variable {w : World σ Q A} {s : σ} {e e' : Engine σ Q A} {x : Happening Q A}

theorem recorded_append (journal : List Line) (line : Line) (entry : Entry) :
    recorded (journal ++ [line]) entry = recorded journal entry + [line.entry].count entry := by
  simp [recorded, List.countP_append, List.count_eq_countP]

namespace World.Journals

variable {journal : σ → List Line} (hw : w.Journals journal) (entry : Entry)

include hw

/-- An act writes its entries, and nothing more is found in the journal. -/
theorem moves {s' : σ} {act : Act Q A} (h : w.Moves s act s') :
    recorded (journal s') entry = recorded (journal s) entry + act.entries.count entry := by
  have hanswer : ∀ {q : Q} {r : Reply (A q)}, w.answer q s = (r, s') → journal s' = journal s := by
    intro q r h
    rw [← hw.answer q s, h]
  cases h with
  | write line => rw [hw.write, recorded_append]; rfl
  | send q => rw [hw.accept]; rfl
  | hear h => rw [hanswer h]; rfl
  | panic h => rw [hanswer h]; rfl

/-- The entries that an engine writes are found in the journal, and nothing more. -/
theorem write_all (span : Log.SpanFields) (entries : List Entry) (e : Engine σ Q A) :
    recorded (journal (e.write w span entries).world) entry =
      recorded (journal e.world) entry + entries.count entry := by
  simp only [Engine.write]
  generalize e.world = s
  induction entries generalizing s with
  | nil => rfl
  | cons en entries ih =>
    have hcons : (en :: entries).count entry = [en].count entry + entries.count entry := by
      rw [← List.count_append]
      rfl
    rw [List.foldl_cons, ih, hw.write, recorded_append, hcons, Nat.add_assoc]

/-- What is recorded of a happening. -/
theorem turn (h : Engine.Turn w e x e') :
    recorded (journal e'.world) entry =
      recorded (journal e.world) entry + x.entries.count entry := by
  cases h with
  | hand e span b =>
    -- only a refusal is written down
    cases ht : e.lanes.isTaken b.lane with
    | true =>
      rw [Engine.hand_eq_of_taken span ht, Engine.start_eq_of_taken span ht]
      change recorded (journal (w.write _ _)) entry = _
      rw [hw.write, recorded_append]
      rfl
    | false =>
      rw [Engine.hand_eq_of_free span ht, Engine.start_eq_of_free span ht]
      rfl
  | act hx hm => exact hw.moves entry hm
  | panic hx hm =>
    have hpanic := hw.moves entry hm
    exact (hw.write_all entry _ _ _).trans (congrArg (· + _) hpanic)
  | complete hx => exact hw.write_all entry _ _ _
  | aside hm => exact hw.moves entry hm

end World.Journals

namespace Happening

/-- Failures are counted where executions end with an error or a panic. -/
theorem count_failures (x : Happening Q A) (lane : String) :
    x.entries.count (.count .backgroundFailures lane) =
      [x].countP (fails lane) + x.own.count (.count .backgroundFailures lane) := by
  cases x with
  | handed b number => cases number <;> rfl
  | acted n act => simp [entries, fails]
  | aside act => simp [entries, fails]
  | ended n l outcome =>
    rcases outcome with (report | _) | reason <;>
      simp [entries, own, fails, Lane.endEntries, Lane.finishEntries, Lane.failureEntries,
        Outcome.failure?, Outcome.isSuccess, List.count_cons, Log.event]

/-- The time is measured wherever executions end. -/
theorem count_runTimes (x : Happening Q A) (lane : String) :
    x.entries.count (.runTime lane) =
      [x].countP (ends lane) + x.own.count (.runTime lane) := by
  cases x with
  | handed b number => cases number <;> rfl
  | acted n act => simp [entries, ends]
  | aside act => simp [entries, ends]
  | ended n l outcome =>
    rcases outcome with (report | _) | reason <;>
      simp [entries, own, ends, Lane.endEntries, Lane.finishEntries, Lane.failureEntries,
        Outcome.failure?, List.count_cons, Log.event]

/-- What is counted with each of some happenings is counted with all of them. -/
theorem count_entries {p : Happening Q A → Bool} {entry : Entry}
    (h : ∀ x, x.entries.count entry = [x].countP p + x.own.count entry) (past : List (Happening Q A)) :
    (past.flatMap entries).count entry = past.countP p + (past.flatMap own).count entry := by
  induction past with
  | nil => rfl
  | cons x past ih =>
    have hx := h x
    have hcons : (x :: past).countP p = [x].countP p + past.countP p := by
      rw [← List.countP_append]
      rfl
    rw [List.flatMap_cons, List.flatMap_cons, List.count_append, List.count_append, hcons]
    omega

end Happening

/-! ### Whole courses -/

namespace Engine.Course

variable {past : List (Happening Q A)} {lane : String}

theorem sound (h : Course w s e past) :
    (⟨e, none, past.flatMap Happening.events⟩ : Process σ Q A Unit).Sound := by
  induction h with
  | idle => exact Process.sound_idle s
  | turn h ht ih =>
    rw [List.flatMap_cons]
    exact ht.sound ih

theorem lanes_nodup (h : Course w s e past) : (e.executions.map (·.lane)).Nodup := h.sound.lanes

theorem incomplete_le_one (h : Course w s e past) (lane : String) : e.incomplete lane ≤ 1 := by
  -- the executions under way are in different lanes
  rw [incomplete_eq_count]
  exact List.nodup_iff_count_le_one.mp h.lanes_nodup lane

theorem balance (h : Course w s e past) (lane : String) :
    past.countP (Happening.accepts lane) = past.countP (Happening.ends lane) + e.incomplete lane := by
  -- each turn adds to both sides what it accepts, and takes from the last what it ends
  induction h with
  | idle => rfl
  | turn h ht ih =>
    have hturn := ht.balance lane
    rw [← List.singleton_append, List.countP_append, List.countP_append]
    omega

/-- A lane is taken just while an execution in it has not ended. -/
theorem taken_iff (h : Course w s e past) (lane : String) :
    e.lanes.isTaken lane = true ↔ e.incomplete lane = 1 := by
  -- a turn keeps this only where there is no second execution, which could end in its place
  have hpos : e.lanes.isTaken lane = true ↔ 0 < e.incomplete lane := by
    induction h with
    | idle => simp [Engine.idle, Lanes.empty, Lanes.isTaken, incomplete]
    | turn h ht ih => exact ht.taken h.lanes_nodup ih
  have hone := h.incomplete_le_one lane
  rw [hpos]
  omega

theorem free_iff (h : Course w s e past) (lane : String) :
    e.lanes.isTaken lane = false ↔ e.incomplete lane = 0 := by
  have hone := h.incomplete_le_one lane
  rw [← Bool.not_eq_true, h.taken_iff]
  omega

theorem recorded_eq {journal : σ → List Line} (h : Course w s e past) (hw : w.Journals journal)
    (entry : Entry) : recorded (journal e.world) entry =
      recorded (journal s) entry + (past.flatMap Happening.entries).count entry := by
  induction h with
  | idle => rfl
  | turn h ht ih =>
    rw [hw.turn entry ht, ih, List.flatMap_cons, List.count_append]
    omega

/-- A course that has something in it has come through it. -/
theorem split {later earlier : List (Happening Q A)} (h : Course w s e (later ++ x :: earlier)) :
    ∃ e₀ e₁, Course w s e₀ earlier ∧ Turn w e₀ x e₁ := by
  generalize hp : later ++ x :: earlier = past at h
  induction h generalizing later with
  | idle => simp at hp
  | turn h ht ih =>
    cases later with
    | nil =>
      cases hp
      exact ⟨_, _, h, ht⟩
    | cons y later => exact ih (List.cons.inj hp).2

/-- The start of an execution is logged where its work was handed over. -/
theorem handed_of_started {n : Nat} {b : Background Q A}
    (h : .started n b ∈ past.flatMap Happening.events) : .handed b (some n) ∈ past := by
  obtain ⟨x, hx, hb⟩ := List.mem_flatMap.mp h
  cases x with
  | handed b' number =>
    cases number with
    | none => nomatch hb
    | some n' =>
      cases List.mem_singleton.mp hb
      exact hx
  | ended n' l outcome => nomatch hb
  | acted n' act => cases act <;> simp [Happening.events, Act.events] at hb
  | aside act => cases act <;> simp [Happening.events, Act.events] at hb

/-- An execution that acts was accepted before, and it acts as its work says after what it has heard. -/
theorem performs {later earlier : List (Happening Q A)} {n : Nat} {act : Act Q A}
    (h : Course w s e (later ++ .acted n act :: earlier)) :
    ∃ b span p p', .handed b (some n) ∈ earlier ∧
      (b.work.run.within span).Path (trace n (earlier.flatMap Happening.events)) (Progress.program p) ∧
      p.Moves act (some p') := by
  obtain ⟨e₀, e₁, h₀, ht⟩ := h.split
  cases ht with
  | @act _ _ _ _ _ _ x p' _ hx hw =>
    obtain ⟨b, span, hb, _, hpath⟩ := h₀.sound.origin x (by simp)
    exact ⟨b, span, x.progress, p', handed_of_started hb, hpath, hx⟩

/-- An execution that ends was accepted before, in the same lane, which is free from then on. -/
theorem ends {later earlier : List (Happening Q A)} {n : Nat} {outcome : Outcome}
    (h : Course w s e (later ++ .ended n lane outcome :: earlier)) :
    ∃ b, .handed b (some n) ∈ earlier ∧ b.lane = lane := by
  obtain ⟨e₀, e₁, h₀, ht⟩ := h.split
  -- it was under way before, and what is under way was started
  have hmem : ∃ x ∈ e₀.executions, x.number = n ∧ x.lane = lane := by
    cases ht with
    | @panic _ _ _ _ _ _ x => exact ⟨x, by simp, rfl, rfl⟩
    | @complete _ _ _ _ _ x => exact ⟨x, by simp, rfl, rfl⟩
  obtain ⟨x, hx, rfl, rfl⟩ := hmem
  obtain ⟨b, span, hb, hlane, _⟩ := h₀.sound.origin x hx
  exact ⟨b, handed_of_started hb, hlane⟩

/-- Work is accepted in a lane exactly when all that was accepted there before has ended. -/
theorem accepted_iff {later earlier : List (Happening Q A)} {b : Background Q A} {number : Option Nat}
    (h : Course w s e (later ++ .handed b number :: earlier)) :
    number.isSome = true ↔
      earlier.countP (Happening.accepts b.lane) = earlier.countP (Happening.ends b.lane) := by
  obtain ⟨e₀, e₁, h₀, ht⟩ := h.split
  -- the two counts differ by what is incomplete when the work is handed over
  have hbalance := h₀.balance b.lane
  cases ht with
  | hand e span b =>
    have hsome : (if (e₀.start span b).1 then some e₀.started else none).isSome = true ↔
        (e₀.start span b).1 = true := by
      cases (e₀.start span b).1 <;> simp
    rw [hsome, start_accepts_iff, h₀.free_iff]
    omega

theorem free_of_ended {n : Nat} {outcome : Outcome}
    (h : Course w s e (.ended n lane outcome :: past)) : e.lanes.isTaken lane = false := by
  cases h with
  | turn h ht =>
    cases ht with
    | panic hx hw => exact isTaken_finish_self _ _ _
    | complete hx => exact isTaken_finish_self _ _ _

/-- Steps of executions are turns. -/
theorem works {α : Type} {p p' : Process σ Q A α} (h : Course w s p.engine past)
    (hw : Process.Works w p p') : ∃ later, Course w s p'.engine (later ++ past) := by
  induction hw with
  | refl => exact ⟨[], h⟩
  | tail _ hstep ih =>
    obtain ⟨later, hc⟩ := ih
    cases hstep with
    | act hx hm => exact ⟨_ :: later, hc.turn (.act hx hm)⟩
    | panic hx hm => exact ⟨_ :: later, hc.turn (.panic hx hm)⟩
    | complete hx => exact ⟨_ :: later, hc.turn (.complete hx)⟩

/-- When all executions are taken further in one go the course goes on. -/
theorem proceedAll (h : Course w s e past) (released : Execution Q A → Bool) :
    ∃ later, Course w s (e.proceedAll w released) (later ++ past) := by
  obtain ⟨log, hworks⟩ := Process.proceedAll_steps (w := w) (f := (none : Option
    (Progress (Command Q A) Command.Answer Unit))) released e []
  exact h.works hworks

end Engine.Course

/-- What a lane keeps to, after all that has happened since nothing was under way in a world `s`. -/
structure SingleFlight (w : World σ Q A) (journal : σ → List Line) (s : σ) (e : Engine σ Q A)
    (past : List (Happening Q A)) (lane : String) : Prop where
  /-- At most one of the executions that were accepted has not ended. -/
  one : e.incomplete lane ≤ 1
  balance : past.countP (Happening.accepts lane) = past.countP (Happening.ends lane) + e.incomplete lane
  running : e.lanes.isTaken lane = true ↔ e.incomplete lane = 1
  accepts : ∀ span b, b.lane = lane → ((e.start span b).1 = true ↔ e.incomplete lane = 0)
  accepted : ∀ later b number earlier, past = later ++ .handed b number :: earlier → b.lane = lane →
    (number.isSome = true ↔
      earlier.countP (Happening.accepts lane) = earlier.countP (Happening.ends lane))
  /-- Of work that is refused only a line in the journal is left. -/
  refuses : ∀ span b, b.lane = lane → (e.start span b).1 = false →
    ((Controller.start span b).run (Engine.foreground w) e).2 =
      { e with world := w.write ⟨[span], Lane.refusal lane⟩ e.world }
  /-- Nothing is done but by work that was accepted, one step of it after the other. -/
  performs : ∀ later n act earlier, past = later ++ .acted n act :: earlier →
    ∃ b span p p', .handed b (some n) ∈ earlier ∧
      (b.work.run.within span).Path (trace n (earlier.flatMap Happening.events)) (Progress.program p) ∧
      p.Moves act (some p')
  own : ∀ n b b', .handed b (some n) ∈ past → .handed b' (some n) ∈ past → b = b'
  ends : ∀ later n outcome earlier, past = later ++ .ended n lane outcome :: earlier →
    ∃ b, .handed b (some n) ∈ earlier ∧ b.lane = lane
  /-- After an end, however it came, the lane is free and the next work is accepted. -/
  cleared : ∀ n outcome earlier, past = .ended n lane outcome :: earlier →
    e.lanes.isTaken lane = false ∧ ∀ span b, b.lane = lane → (e.start span b).1 = true
  /-- Besides what the programs write of their own accord, every failure is counted once, and nothing else. -/
  failures : recorded (journal e.world) (.count .backgroundFailures lane) =
    recorded (journal s) (.count .backgroundFailures lane) + (past.countP (Happening.fails lane) +
      (past.flatMap Happening.own).count (.count .backgroundFailures lane))
  runTimes : recorded (journal e.world) (.runTime lane) =
    recorded (journal s) (.runTime lane) + (past.countP (Happening.ends lane) +
      (past.flatMap Happening.own).count (.runTime lane))

/-- Every lane holds at most one execution at a time, whatever is handed over and however it ends. -/
theorem single_flight {journal : σ → List Line} {past : List (Happening Q A)} (hw : w.Journals journal)
    (h : Engine.Course w s e past) (lane : String) : SingleFlight w journal s e past lane := by
  constructor
  case one => exact h.incomplete_le_one lane
  case balance => exact h.balance lane
  case running => exact h.taken_iff lane
  case accepts =>
    rintro span b rfl
    rw [Engine.start_accepts_iff]
    exact h.free_iff b.lane
  case accepted =>
    rintro later b number earlier rfl rfl
    exact h.accepted_iff
  case refuses =>
    rintro span b rfl hrefused
    have hnot : ¬ e.lanes.isTaken b.lane = false := by
      rw [← Engine.start_accepts_iff span b, hrefused]
      exact Bool.false_ne_true
    exact Engine.hand_eq_of_taken span (Bool.not_eq_false _ ▸ hnot)
  case performs =>
    rintro later n act earlier rfl
    exact h.performs
  case own =>
    intro n b b' hb hb'
    have hlog : ∀ b, .handed b (some n) ∈ past → .started n b ∈ past.flatMap Happening.events :=
      fun b hb => List.mem_flatMap.mpr ⟨_, hb, List.mem_singleton_self _⟩
    exact h.sound.unique n b b' (hlog b hb) (hlog b' hb')
  case ends =>
    rintro later n outcome earlier rfl
    exact h.ends
  case cleared =>
    rintro n outcome earlier rfl
    have hlane := h.free_of_ended
    refine ⟨hlane, ?_⟩
    rintro span b rfl
    exact (Engine.start_accepts_iff span b).mpr hlane
  case failures =>
    rw [h.recorded_eq hw, Happening.count_entries fun x => x.count_failures lane]
  case runTimes =>
    rw [h.recorded_eq hw, Happening.count_entries fun x => x.count_runTimes lane]

namespace SingleFlight.Sample

def world : World (List Line) Bool fun _ => Unit where
  write line journal := journal ++ [line]
  accept _ journal := (true, journal)
  answer q journal := (if q then .answer () else .panic (some "boom"), journal)

def asking (q : Bool) : Background Bool fun _ => Unit :=
  ⟨"rewards", ExceptT.mk (.ask q fun _ => .done (.ok ()))⟩

def failing : Background Bool fun _ => Unit := ⟨"rewards", ExceptT.mk (.done (.error (.of (.plain "no"))))⟩

def span : Log.SpanFields := .ofFields []

def past : List (Happening Bool fun _ => Unit) := [
  .ended 2 "rewards" (.completed (.error (.of (.plain "no")))),
  .handed failing (some 2),
  .ended 1 "rewards" (.panicked (some "boom")),
  .acted 1 (.send false),
  .handed (asking false) (some 1),
  .ended 0 "rewards" (.completed (.ok ())),
  .acted 0 (.hear true ()),
  .handed (asking true) none,
  .acted 0 (.send true),
  .handed (asking true) (some 0)]

open Engine in
theorem course : ∃ e, Course world [] e past := by
  have h₀ : Course world [] _ _ := .turn .idle (.accepted span (b := asking true) rfl)
  have h₁ := h₀.turn (show Turn _ ⟨_, [] ++ _ :: _, _, _⟩ _ _ from .act (.send true _) (.send true _))
  have h₂ := h₁.turn (.refused span (b := asking true) rfl)
  have h₃ := h₂.turn (show Turn _ ⟨_, [] ++ _ :: _, _, _⟩ _ _ from .act (.hear true _ ()) (.hear rfl))
  have h₄ := h₃.turn (show Turn _ ⟨_, [] ++ _ :: _, _, _⟩ _ _ from .complete rfl)
  have h₅ := h₄.turn (.accepted span (b := asking false) rfl)
  have h₆ := h₅.turn (show Turn _ ⟨_, [] ++ _ :: _, _, _⟩ _ _ from .act (.send false _) (.send false _))
  have h₇ := h₆.turn (show Turn _ ⟨_, [] ++ _ :: _, _, _⟩ _ _ from
    .panic (.panic false _ (some "boom")) (.panic rfl))
  have h₈ := h₇.turn (.accepted span (b := failing) rfl)
  have h₉ := h₈.turn (show Turn _ ⟨_, [] ++ _ :: _, _, _⟩ _ _ from .complete rfl)
  exact ⟨_, h₉⟩

theorem journals : world.Journals fun journal => journal where
  write _ _ := rfl
  accept _ _ := rfl
  answer _ _ := rfl

end SingleFlight.Sample

open SingleFlight.Sample in
theorem single_flight_of_three : ∃ e, Engine.Course world [] e past ∧
    SingleFlight world (fun journal => journal) [] e past "rewards" ∧
    e.lanes.isTaken "rewards" = false ∧
    recorded e.world (.count .backgroundFailures "rewards") = 2 ∧
    recorded e.world (.runTime "rewards") = 3 := by
  obtain ⟨e, he⟩ := course
  have h := single_flight journals he "rewards"
  have hfailures : past.countP (Happening.fails "rewards") = 2 := by decide
  have hends : past.countP (Happening.ends "rewards") = 3 := by decide
  have hown : past.flatMap Happening.own = [] := rfl
  refine ⟨e, he, h, (h.cleared _ _ _ rfl).1, ?_, ?_⟩
  · rw [h.failures, hfailures, hown]
    rfl
  · rw [h.runTimes, hends, hown]
    rfl

end OracleDuty
