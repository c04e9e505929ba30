import Mathlib.Logic.Relation
import OracleDuty.Background
import OracleDuty.Proofs.Script
/-!
Processes: a foreground and its background executions, carried out one act at a time in any order, with a
log of all that was asked and heard.

Main statements: every execution under way has come along a path of the work that it was started with
(`Sound.origin`), at most one execution is under way in a lane (`Sound.lanes`), and all of this holds
whatever happens (`sound_of_reachable`); what is in the log was logged by some step (`Reachable.split`).
-/
namespace OracleDuty

inductive Act (Q : Type) (A : Q → Type) where
  | write (line : Line)
  | send (q : Q)
  | hear (q : Q) (a : A q)
  | panic (q : Q) (reason : Option String)

/-- What is logged: requests and answers by the number of the execution, or by none for the foreground,
and the start of executions. -/
inductive Event (Q : Type) (A : Q → Type) where
  | sent (number : Option Nat) (q : Q)
  | heard (number : Option Nat) (q : Q) (a : A q)
  | started (number : Nat) (b : Background Q A)

variable {σ Q : Type} {A : Q → Type} {α : Type}

def Act.events (number : Option Nat) : Act Q A → List (Event Q A)
  | .send q => [.sent number q]
  | .hear q a => [.heard number q a]
  | _ => []

def Act.leading (started : Nat) : Act (Command Q A) Command.Answer → List (Event Q A)
  | .send (.ask q) => [.sent none q]
  | .hear (.ask q) a => [.heard none q a]
  | .hear (.start _ b) true => [.started started b]
  | _ => []

def Act.asLead : Act Q A → Act (Command Q A) Command.Answer
  | .write line => .write line
  | .send q => .send (.ask q)
  | .hear q a => .hear (.ask q) a
  | .panic q reason => .panic (.ask q) reason

@[simp] theorem Act.leading_asLead (started : Nat) (act : Act Q A) :
    act.asLead.leading started = act.events none := by
  cases act <;> rfl

inductive World.Moves (w : World σ Q A) : σ → Act Q A → σ → Prop where
  | write (line : Line) (s : σ) : w.Moves s (.write line) (w.write line s)
  | send (q : Q) (s : σ) : w.Moves s (.send q) (w.accept q s).2
  | hear {q : Q} {a : A q} {s s' : σ} (h : w.answer q s = (.answer a, s')) : w.Moves s (.hear q a) s'
  | panic {q : Q} {reason : Option String} {s s' : σ} (h : w.answer q s = (.panic reason, s')) :
    w.Moves s (.panic q reason) s'

namespace Progress

def program : Progress Q A α → Program Q A α
  | ready p => p
  | held q next => .ask q next

/-- How a program goes on with an act; after a panic nothing is left of it. -/
inductive Moves : Progress Q A α → Act Q A → Option (Progress Q A α) → Prop where
  | write (line : Line) (p : Program Q A α) : Moves (ready (.note line p)) (.write line) (some (ready p))
  | send (q : Q) (next : A q → Program Q A α) :
    Moves (ready (.ask q next)) (.send q) (some (held q next))
  | hear (q : Q) (next : A q → Program Q A α) (a : A q) :
    Moves (held q next) (.hear q a) (some (ready (next a)))
  | panic (q : Q) (next : A q → Program Q A α) (reason : Option String) :
    Moves (held q next) (.panic q reason) none

end Progress

/-- The executions under way, the foreground in hand, and the log, the latest event first. -/
structure Process (σ Q : Type) (A : Q → Type) (α : Type) where
  engine : Engine σ Q A
  front : Option (Progress (Command Q A) Command.Answer α)
  log : List (Event Q A)

namespace Process

def idle (s : σ) : Process σ Q A α := ⟨Engine.idle s, none, []⟩

/-- One step of a process whose foregrounds are of `T`. -/
inductive Step (w : World σ Q A) (T : Foreground Q A α → Prop) :
    Process σ Q A α → Process σ Q A α → Prop where
  | trigger {e : Engine σ Q A} {log : List (Event Q A)} {f : Foreground Q A α} (h : T f) :
    Step w T ⟨e, none, log⟩ ⟨e, some (.ready f), log⟩
  | rest {e : Engine σ Q A} {log : List (Event Q A)} {a : α} :
    Step w T ⟨e, some (.ready (.done a)), log⟩ ⟨e, none, log⟩
  | lead {e e' : Engine σ Q A} {log : List (Event Q A)}
    {f : Progress (Command Q A) Command.Answer α}
    {f' : Option (Progress (Command Q A) Command.Answer α)} {act : Act (Command Q A) Command.Answer}
    (hf : f.Moves act f') (he : (Engine.foreground w).Moves e act e') :
    Step w T ⟨e, some f, log⟩ ⟨e', f', act.leading e.started ++ log⟩
  | work {lanes : Lanes} {before after : List (Execution Q A)} {started : Nat} {s s' : σ}
    {f : Option (Progress (Command Q A) Command.Answer α)} {log : List (Event Q A)} {x : Execution Q A}
    {p : Progress Q A (Except Report Unit)} {act : Act Q A}
    (hx : x.progress.Moves act (some p)) (hw : w.Moves s act s') :
    Step w T ⟨⟨lanes, before ++ x :: after, started, s⟩, f, log⟩
      ⟨⟨lanes, before ++ { x with progress := p } :: after, started, s'⟩, f,
        act.events (some x.number) ++ log⟩
  | panic {lanes : Lanes} {before after : List (Execution Q A)} {started : Nat} {s s' : σ}
    {f : Option (Progress (Command Q A) Command.Answer α)} {log : List (Event Q A)} {x : Execution Q A}
    {q : Q} {reason : Option String}
    (hx : x.progress.Moves (.panic q reason) none) (hw : w.Moves s (.panic q reason) s') :
    Step w T ⟨⟨lanes, before ++ x :: after, started, s⟩, f, log⟩
      ⟨Engine.finish w x (.panicked reason) ⟨lanes, before ++ after, started, s'⟩, f, log⟩
  | complete {lanes : Lanes} {before after : List (Execution Q A)} {started : Nat} {s : σ}
    {f : Option (Progress (Command Q A) Command.Answer α)} {log : List (Event Q A)} {x : Execution Q A}
    {result : Except Report Unit} (hx : x.progress = .ready (.done result)) :
    Step w T ⟨⟨lanes, before ++ x :: after, started, s⟩, f, log⟩
      ⟨Engine.finish w x (.completed result) ⟨lanes, before ++ after, started, s⟩, f, log⟩
  /-- Executions are cut off; their lanes stay taken. -/
  | abort {e : Engine σ Q A} {f : Option (Progress (Command Q A) Command.Answer α)}
    {log : List (Event Q A)} (cut : Execution Q A → Bool) : Step w T ⟨e, f, log⟩ ⟨e.abort cut, f, log⟩
  /-- The process is stopped wherever it stands, and started again. Numbers go on. -/
  | restart {e : Engine σ Q A} {f : Option (Progress (Command Q A) Command.Answer α)}
    {log : List (Event Q A)} :
    Step w T ⟨e, f, log⟩ ⟨{ Engine.idle e.world with started := e.started }, none, log⟩

/-- The processes that come of a world. -/
def Reachable (w : World σ Q A) (T : Foreground Q A α → Prop) (s : σ) (p : Process σ Q A α) : Prop :=
  Relation.ReflTransGen (Step w T) (idle s) p

end Process

/-! ### Traces -/

def Event.exchange? (number : Nat) : Event Q A → Option (Exchange Q A)
  | .heard (some n) q a => if n = number then some ⟨q, a⟩ else none
  | _ => none

/-- All that an execution has asked and heard, in order. -/
def trace (number : Nat) (log : List (Event Q A)) : List (Exchange Q A) :=
  (log.filterMap (Event.exchange? number)).reverse

def Act.exchanges : Act Q A → List (Exchange Q A)
  | .hear q a => [⟨q, a⟩]
  | _ => []

theorem trace_cons (number : Nat) (e : Event Q A) (log : List (Event Q A)) :
    trace number (e :: log) = trace number log ++ (e.exchange? number).toList := by
  unfold trace
  rw [List.filterMap_cons]
  cases e.exchange? number <;> simp

@[simp] theorem trace_events (number : Nat) (act : Act Q A) (log : List (Event Q A)) :
    trace number (act.events (some number) ++ log) = trace number log ++ act.exchanges := by
  cases act <;> simp [Act.events, Act.exchanges, trace_cons, Event.exchange?]

theorem trace_events_of_ne {number n : Nat} (h : n ≠ number) (act : Act Q A)
    (log : List (Event Q A)) : trace number (act.events (some n) ++ log) = trace number log := by
  cases act <;> simp [Act.events, trace_cons, Event.exchange?, h]

/-- An execution that has heard nothing has an empty trace. -/
theorem trace_eq_nil {number : Nat} {log : List (Event Q A)}
    (h : ∀ q a, .heard (some number) q a ∉ log) : trace number log = [] := by
  unfold trace
  rw [List.reverse_eq_nil_iff, List.filterMap_eq_nil_iff]
  intro e he
  cases e with
  | heard n q a =>
    cases n with
    | none => rfl
    | some n =>
      have hne : n ≠ number := by
        intro hn
        subst hn
        exact h q a he
      exact if_neg hne
  | _ => rfl

theorem mem_of_mem_trace {number : Nat} {log : List (Event Q A)} {x : Exchange Q A}
    (h : x ∈ trace number log) : .heard (some number) x.request x.answer ∈ log := by
  obtain ⟨e, he, hx⟩ := List.mem_filterMap.mp (List.mem_reverse.mp h)
  cases e with
  | heard n q a =>
    cases n with
    | none => nomatch hx
    | some n =>
      simp only [Event.exchange?] at hx
      split at hx
      · next hn =>
        cases hx
        exact hn ▸ he
      · nomatch hx
  | _ => nomatch hx

theorem mem_trace_of_heard {number : Nat} {log : List (Event Q A)} {q : Q} {a : A q}
    (h : .heard (some number) q a ∈ log) : ⟨q, a⟩ ∈ trace number log := by
  apply List.mem_reverse.mpr
  exact List.mem_filterMap.mpr ⟨_, h, if_pos rfl⟩

theorem Progress.Moves.path {x p : Progress Q A α} {act : Act Q A} (h : x.Moves act (some p)) :
    x.program.Path act.exchanges p.program := by
  cases h with
  | write line p => exact .note (.refl _)
  | send q next => exact .refl _
  | hear q next a => exact .ask (.refl _)

/-- An act that asks or hears is about the request that comes next. -/
theorem Progress.Moves.program_eq {x : Progress Q A α} {p : Option (Progress Q A α)} {act : Act Q A}
    (h : x.Moves act p) :
    match act with
    | .write line => ∃ r, x.program = .note line r
    | .send q => ∃ next, x.program = .ask q next
    | .hear q _ => ∃ next, x.program = .ask q next
    | .panic q _ => ∃ next, x.program = .ask q next := by
  cases h with
  | write line p => exact ⟨p, rfl⟩
  | send q next => exact ⟨next, rfl⟩
  | hear q next a => exact ⟨next, rfl⟩
  | panic q next reason => exact ⟨next, rfl⟩

/-! ### What holds of every process -/

def Event.number? : Event Q A → Option Nat
  | .sent n _ => n
  | .heard n _ _ => n
  | .started n _ => some n

/-- Requests are sent, and answers heard, for what the work of the execution asks next; an execution that is
started has a number of its own. -/
def Event.Apt (earlier : List (Event Q A)) : Event Q A → Prop
  | .started n _ => ∀ e ∈ earlier, e.number? ≠ some n
  | .sent (some n) q => ∃ b, .started n b ∈ earlier ∧ b.work.run.Asks (trace n earlier) q
  | .heard (some n) q _ => ∃ b, .started n b ∈ earlier ∧ b.work.run.Asks (trace n earlier) q
  | _ => True

namespace Process

/-- Each execution has its lane and its number to itself and is on a path of its work, and each event of
the log is apt. -/
structure Sound (p : Process σ Q A α) : Prop where
  lanes : (p.engine.executions.map (·.lane)).Nodup
  numbers : (p.engine.executions.map (·.number)).Nodup
  taken : ∀ x ∈ p.engine.executions, p.engine.lanes.isTaken x.lane = true
  below : ∀ e ∈ p.log, ∀ n, e.number? = some n → n < p.engine.started
  unique : ∀ n b b', .started n b ∈ p.log → .started n b' ∈ p.log → b = b'
  origin : ∀ x ∈ p.engine.executions, ∃ b span, .started x.number b ∈ p.log ∧ b.lane = x.lane ∧
    (b.work.run.within span).Path (trace x.number p.log) x.progress.program
  apt : ∀ later e earlier, p.log = later ++ e :: earlier → e.Apt earlier

theorem sound_idle (s : σ) : (idle s : Process σ Q A α).Sound where
  lanes := .nil
  numbers := .nil
  taken := by simp [idle, Engine.idle]
  below := by simp [idle]
  unique := by simp [idle]
  origin := by simp [idle, Engine.idle]
  apt := by simp [idle]

/-- A process that only loses executions stays sound. -/
theorem Sound.mono {p p' : Process σ Q A α} (h : p.Sound)
    (hx : p'.engine.executions.Sublist p.engine.executions)
    (ht : ∀ x ∈ p'.engine.executions, p'.engine.lanes.isTaken x.lane = true)
    (hs : p'.engine.started = p.engine.started) (hl : p'.log = p.log) : p'.Sound where
  lanes := h.lanes.sublist (hx.map _)
  numbers := h.numbers.sublist (hx.map _)
  taken := ht
  below := by
    rw [hl, hs]
    exact h.below
  unique := by
    rw [hl]
    exact h.unique
  origin := by
    rw [hl]
    exact fun x hm => h.origin x (hx.subset hm)
  apt := by
    rw [hl]
    exact h.apt

/-- An apt event behind apt events leaves all of them apt. -/
theorem apt_cons {log : List (Event Q A)} {e : Event Q A} (he : e.Apt log)
    (h : ∀ later e earlier, log = later ++ e :: earlier → e.Apt earlier) :
    ∀ later e' earlier, e :: log = later ++ e' :: earlier → e'.Apt earlier := by
  intro later e' earlier hl
  cases later with
  | nil =>
    cases hl
    exact he
  | cons _ later =>
    have hrest : log = later ++ e' :: earlier := (List.cons_eq_cons.mp hl).2
    exact h later e' earlier hrest

/-- What tells the members of a list apart tells one in its midst from all others. -/
theorem ne_of_nodup_map {β γ : Type} {g : β → γ} {before after : List β} {x y : β}
    (h : ((before ++ x :: after).map g).Nodup) (hy : y ∈ before ++ after) : g y ≠ g x := by
  have hn := (List.perm_middle.map g).nodup_iff.mp h
  intro e
  apply (List.nodup_cons.mp hn).1
  rw [← e]
  exact List.mem_map_of_mem hy

theorem Sound.number_lt {p : Process σ Q A α} (h : p.Sound) {x : Execution Q A}
    (hx : x ∈ p.engine.executions) : x.number < p.engine.started := by
  obtain ⟨b, _, hb, _⟩ := h.origin x hx
  exact h.below _ hb _ rfl

/-- A foreground acts in the world around the engine, or starts an execution in a lane that is free, or
does nothing to the engine. -/
theorem lead_cases {w : World σ Q A} {e e' : Engine σ Q A} {act : Act (Command Q A) Command.Answer}
    (h : (Engine.foreground w).Moves e act e') :
    (∃ act' s', act = act'.asLead ∧ w.Moves e.world act' s' ∧ e' = { e with world := s' }) ∨
      (∃ span b, act = .hear (.start span b) true ∧ e.lanes.isTaken b.lane = false ∧
        e' = { e with
          lanes := ⟨b.lane :: e.lanes.inFlight⟩
          executions := e.executions ++ [⟨e.started, b.lane, span, .ready (b.work.run.within span)⟩]
          started := e.started + 1 }) ∨
      e' = e ∧ act.leading e.started = [] := by
  cases h with
  | write line => exact .inl ⟨.write line, _, rfl, .write _ _, rfl⟩
  | send q =>
    cases q with
    | ask q => exact .inl ⟨.send q, _, rfl, .send _ _, rfl⟩
    | start span b => exact .inr (.inr ⟨rfl, rfl⟩)
  | @hear q a s s' h =>
    cases q with
    | ask q =>
      obtain ⟨hr, rfl⟩ := Prod.mk.injEq .. ▸ h
      exact .inl ⟨.hear q a, (w.answer q e.world).2, rfl, .hear (Prod.ext hr rfl), rfl⟩
    | start span b =>
      simp only [Engine.foreground, Engine.start, Lanes.take] at h
      cases ht : e.lanes.isTaken b.lane with
      | true =>
        rw [ht] at h
        obtain ⟨ha, rfl⟩ := Prod.mk.injEq .. ▸ h
        cases ha
        exact .inr (.inr ⟨rfl, rfl⟩)
      | false =>
        rw [ht] at h
        obtain ⟨ha, rfl⟩ := Prod.mk.injEq .. ▸ h
        cases ha
        exact .inr (.inl ⟨span, b, rfl, ht, rfl⟩)
  | @panic q reason s s' h =>
    cases q with
    | ask q =>
      obtain ⟨hr, rfl⟩ := Prod.mk.injEq .. ▸ h
      exact .inl ⟨.panic q reason, (w.answer q e.world).2, rfl, .panic (Prod.ext hr rfl), rfl⟩
    | start span b => cases (Prod.mk.injEq .. ▸ h).1

/-- What the foreground asks or hears does not touch the executions. -/
theorem Sound.lead {e : Engine σ Q A} {s' : σ} {log : List (Event Q A)}
    {f f' : Option (Progress (Command Q A) Command.Answer α)} (h : (⟨e, f, log⟩ : Process _ _ _ _).Sound)
    (act : Act Q A) : (⟨{ e with world := s' }, f', act.events none ++ log⟩ : Process _ _ _ _).Sound := by
  cases act with
  | write line => exact ⟨h.lanes, h.numbers, h.taken, h.below, h.unique, h.origin, h.apt⟩
  | panic q reason => exact ⟨h.lanes, h.numbers, h.taken, h.below, h.unique, h.origin, h.apt⟩
  | send q =>
    refine ⟨h.lanes, h.numbers, h.taken, ?_, ?_, ?_, apt_cons trivial h.apt⟩
    · simpa [Act.events, Event.number?] using h.below
    · simpa [Act.events] using h.unique
    · simpa [Act.events, trace_cons, Event.exchange?] using h.origin
  | hear q a =>
    refine ⟨h.lanes, h.numbers, h.taken, ?_, ?_, ?_, apt_cons trivial h.apt⟩
    · simpa [Act.events, Event.number?] using h.below
    · simpa [Act.events] using h.unique
    · simpa [Act.events, trace_cons, Event.exchange?] using h.origin

/-- Work that is started has a lane of its own, and a number that no event has told yet. -/
theorem Sound.start {e : Engine σ Q A} {log : List (Event Q A)}
    {f f' : Option (Progress (Command Q A) Command.Answer α)} (h : (⟨e, f, log⟩ : Process _ _ _ _).Sound)
    (span : Log.SpanFields) {b : Background Q A} (hb : e.lanes.isTaken b.lane = false) :
    (⟨{ e with
        lanes := ⟨b.lane :: e.lanes.inFlight⟩
        executions := e.executions ++ [⟨e.started, b.lane, span, .ready (b.work.run.within span)⟩]
        started := e.started + 1 }, f', .started e.started b :: log⟩ : Process _ _ _ _).Sound := by
  -- a lane in use is taken, and this one is free
  have hlane : ∀ x ∈ e.executions, x.lane ≠ b.lane := by
    intro x hx hxb
    have ht := h.taken x hx
    rw [hxb, hb] at ht
    cases ht
  -- the number is new, since every number in the log is below it
  have hnew : ∀ b', .started e.started b' ∉ log := by
    intro b' hm
    exact Nat.lt_irrefl _ (h.below _ hm _ rfl)
  have hapt : Event.Apt log (.started e.started b) := by
    intro ev hev hn
    exact Nat.lt_irrefl _ (h.below ev hev _ hn)
  constructor
  case lanes =>
    have hl := h.lanes
    simp only [List.map_append, List.map_cons, List.map_nil]
    rw [List.nodup_append]
    refine ⟨hl, by simp, ?_⟩
    simpa using hlane
  case numbers =>
    have hn := h.numbers
    simp only [List.map_append, List.map_cons, List.map_nil]
    rw [List.nodup_append]
    refine ⟨hn, by simp, ?_⟩
    simpa using fun x hx => Nat.ne_of_lt (h.number_lt hx)
  case taken =>
    intro x hx
    rcases List.mem_append.mp hx with hx | hx
    · have ht := h.taken x hx
      simp only [Lanes.isTaken, List.contains_eq_mem, decide_eq_true_eq] at ht ⊢
      exact List.mem_cons_of_mem _ ht
    · cases List.mem_singleton.mp hx
      simp [Lanes.isTaken]
  case below =>
    intro ev hev n hn
    rcases List.mem_cons.mp hev with rfl | hev
    · cases hn
      exact Nat.lt_succ_self _
    · exact Nat.lt_succ_of_lt (h.below ev hev n hn)
  case unique =>
    intro n b₁ b₂ h₁ h₂
    rcases List.mem_cons.mp h₁ with h₁ | h₁ <;> rcases List.mem_cons.mp h₂ with h₂ | h₂
    · cases h₁
      cases h₂
      rfl
    · cases h₁
      exact absurd h₂ (hnew _)
    · cases h₂
      exact absurd h₁ (hnew _)
    · exact h.unique n b₁ b₂ h₁ h₂
  case origin =>
    intro x hx
    have htrace : trace x.number (.started e.started b :: log) = trace x.number log := by
      simp [trace_cons, Event.exchange?]
    rw [htrace]
    rcases List.mem_append.mp hx with hx | hx
    · obtain ⟨b', sp, hb', hr⟩ := h.origin x hx
      exact ⟨b', sp, List.mem_cons_of_mem _ hb', hr⟩
    · -- the new execution stands at the beginning of its work, with nothing heard
      cases List.mem_singleton.mp hx
      have hnil : trace e.started log = [] :=
        trace_eq_nil fun q a hm => Nat.lt_irrefl _ (h.below _ hm _ rfl)
      refine ⟨b, span, List.mem_cons_self, rfl, ?_⟩
      rw [hnil]
      exact .refl _
  case apt => exact apt_cons hapt h.apt

/-- An execution that acts stays on a path of its work, and its act is apt. -/
theorem Sound.work {lanes : Lanes} {before after : List (Execution Q A)} {started : Nat} {s s' : σ}
    {f : Option (Progress (Command Q A) Command.Answer α)} {log : List (Event Q A)} {x : Execution Q A}
    {p : Progress Q A (Except Report Unit)} {act : Act Q A}
    (h : (⟨⟨lanes, before ++ x :: after, started, s⟩, f, log⟩ : Process _ _ _ _).Sound)
    (hx : x.progress.Moves act (some p)) :
    (⟨⟨lanes, before ++ { x with progress := p } :: after, started, s'⟩, f,
      act.events (some x.number) ++ log⟩ : Process _ _ _ _).Sound := by
  -- beside the execution that acts, all others are as they were, under numbers of their own
  have hmem : ∀ y ∈ before ++ { x with progress := p } :: after,
      y = { x with progress := p } ∨ y ∈ before ++ x :: after ∧ y.number ≠ x.number := by
    intro y hy
    simp only [List.mem_append, List.mem_cons] at hy ⊢
    rcases hy with hy | rfl | hy
    · exact .inr ⟨.inl hy, ne_of_nodup_map h.numbers (List.mem_append_left _ hy)⟩
    · exact .inl rfl
    · exact .inr ⟨.inr (.inr hy), ne_of_nodup_map h.numbers (List.mem_append_right _ hy)⟩
  have hxm : x ∈ before ++ x :: after := by simp
  obtain ⟨b, span, hb, hlane, hpath⟩ := h.origin x hxm
  have hold : ∀ ev ∈ log, ev ∈ act.events (some x.number) ++ log := fun ev hev =>
    List.mem_append_right _ hev
  have hlog : ∀ ev ∈ act.events (some x.number) ++ log, ev ∈ log ∨ ev.number? = some x.number ∧
      ∀ n b', ev ≠ .started n b' := by
    cases act <;> simp +contextual [Act.events, Event.number?]
  constructor
  case lanes => simpa using h.lanes
  case numbers => simpa using h.numbers
  case taken =>
    intro y hy
    rcases hmem y hy with rfl | ⟨hy, _⟩
    · exact h.taken x hxm
    · exact h.taken y hy
  case below =>
    intro ev hev n hn
    rcases hlog ev hev with hev | ⟨hnum, _⟩
    · exact h.below ev hev n hn
    · rw [hnum] at hn
      cases hn
      exact h.number_lt hxm
  case unique =>
    intro n b₁ b₂ h₁ h₂
    rcases hlog _ h₁ with h₁ | ⟨_, h₁⟩
    · rcases hlog _ h₂ with h₂ | ⟨_, h₂⟩
      · exact h.unique n b₁ b₂ h₁ h₂
      · exact absurd rfl (h₂ _ _)
    · exact absurd rfl (h₁ _ _)
  case origin =>
    intro y hy
    rcases hmem y hy with rfl | ⟨hy, hne⟩
    · -- its path grows by the exchange of the act
      refine ⟨b, span, hold _ hb, hlane, ?_⟩
      rw [trace_events]
      exact hpath.trans hx.path
    · obtain ⟨b', sp, hb', hl, hp⟩ := h.origin y hy
      refine ⟨b', sp, hold _ hb', hl, ?_⟩
      rw [trace_events_of_ne hne.symm]
      exact hp
  case apt =>
    have hasks : ∀ q next, x.progress.program = .ask q next →
        ∃ b, .started x.number b ∈ log ∧ b.work.run.Asks (trace x.number log) q := by
      intro q next hq
      rw [hq] at hpath
      exact ⟨b, hb, Program.Asks.of_within ⟨next, hpath⟩⟩
    have hq := hx.program_eq
    cases act with
    | write line => exact h.apt
    | panic q reason => exact h.apt
    | send q => exact apt_cons (hasks q _ hq.choose_spec) h.apt
    | hear q a => exact apt_cons (hasks q _ hq.choose_spec) h.apt

/-- Nothing is logged about an execution before it is started. -/
theorem Sound.fresh {p : Process σ Q A α} (h : p.Sound) {later base : List (Event Q A)}
    (hl : p.log = later ++ base) {n : Nat} {b : Background Q A} (hb : .started n b ∈ later) :
    ∀ e ∈ base, e.number? ≠ some n := by
  obtain ⟨l₂, l₁, rfl⟩ := List.append_of_mem hb
  rw [List.append_assoc, List.cons_append] at hl
  intro e he
  exact h.apt _ _ _ hl e (List.mem_append_right _ he)

theorem Sound.eq_of_started {p : Process σ Q A α} (h : p.Sound) {later earlier : List (Event Q A)}
    {e : Event Q A} (hl : p.log = later ++ e :: earlier) {n : Nat} {b b' : Background Q A}
    (hb : .started n b ∈ p.log) (hb' : .started n b' ∈ earlier) : b' = b := by
  have hmem : .started n b' ∈ p.log := by
    rw [hl]
    exact List.mem_append_right _ (List.mem_cons_of_mem _ hb')
  exact h.unique n b' b hmem hb

/-- What an execution sends, and what it hears an answer to, is what its work asks after all that it has
heard before. -/
theorem Sound.asks_of_sent {p : Process σ Q A α} (h : p.Sound) {later earlier : List (Event Q A)}
    {n : Nat} {q : Q} (hl : p.log = later ++ .sent (some n) q :: earlier) {b : Background Q A}
    (hb : .started n b ∈ p.log) : b.work.run.Asks (trace n earlier) q := by
  obtain ⟨b', hb', hasks⟩ := h.apt _ _ _ hl
  rw [h.eq_of_started hl hb hb'] at hasks
  exact hasks

theorem Sound.asks_of_heard {p : Process σ Q A α} (h : p.Sound) {later earlier : List (Event Q A)}
    {n : Nat} {q : Q} {a : A q} (hl : p.log = later ++ .heard (some n) q a :: earlier)
    {b : Background Q A} (hb : .started n b ∈ p.log) : b.work.run.Asks (trace n earlier) q := by
  obtain ⟨b', hb', hasks⟩ := h.apt _ _ _ hl
  rw [h.eq_of_started hl hb hb'] at hasks
  exact hasks

/-- By cases on the step: no step takes a lane or a number twice. -/
theorem Step.sound {w : World σ Q A} {T : Foreground Q A α → Prop} {p p' : Process σ Q A α}
    (h : Step w T p p') (hp : p.Sound) : p'.Sound := by
  have hdrop : ∀ (before after : List (Execution Q A)) (x : Execution Q A),
      (before ++ after).Sublist (before ++ x :: after) := fun before after x =>
    (List.sublist_cons_self x after).append_left before
  -- an execution that ends leaves its own lane free and the others taken
  have hfree : ∀ {lanes : Lanes} {before after : List (Execution Q A)} {started : Nat} {s : σ} {f log}
      {x : Execution Q A}, (⟨⟨lanes, before ++ x :: after, started, s⟩, f, log⟩ :
        Process σ Q A α).Sound →
      ∀ y ∈ before ++ after, (lanes.free x.lane).isTaken y.lane = true := by
    intro lanes before after started s f log x hs y hy
    have hne : y.lane ≠ x.lane := ne_of_nodup_map hs.lanes hy
    rw [Lanes.isTaken_free, hs.taken y ((hdrop before after x).subset hy)]
    simpa using hne
  cases h with
  | trigger h => exact hp.mono (.refl _) hp.taken rfl rfl
  | rest => exact hp.mono (.refl _) hp.taken rfl rfl
  | lead hf he =>
    rcases lead_cases he with ⟨act', s', rfl, _, rfl⟩ | ⟨span, b, rfl, hb, rfl⟩ | ⟨rfl, ha⟩
    · rw [Act.leading_asLead]
      exact hp.lead act'
    · exact hp.start span hb
    · rw [ha]
      exact hp.mono (.refl _) hp.taken rfl rfl
  | work hx hw => exact hp.work hx
  | panic hx hw => exact hp.mono (hdrop _ _ _) (hfree hp) rfl rfl
  | complete hx => exact hp.mono (hdrop _ _ _) (hfree hp) rfl rfl
  | abort cut => exact hp.mono List.filter_sublist (fun x hx => hp.taken x (List.mem_filter.mp hx).1) rfl rfl
  | restart => exact hp.mono (List.nil_sublist _) (fun x hx => absurd hx (List.not_mem_nil)) rfl rfl

/-- Whatever a process does, it is sound. -/
theorem sound_of_reachable {w : World σ Q A} {T : Foreground Q A α → Prop} {s : σ} {p : Process σ Q A α}
    (h : Reachable w T s p) : p.Sound := by
  induction h with
  | refl => exact sound_idle s
  | tail _ hstep ih => exact hstep.sound ih

/-- The log grows by one event at a time. -/
theorem Step.log_cases {w : World σ Q A} {T : Foreground Q A α → Prop} {p p' : Process σ Q A α}
    (h : Step w T p p') : p'.log = p.log ∨ ∃ e, p'.log = e :: p.log := by
  have hevents : ∀ (number : Option Nat) (act : Act Q A) (log : List (Event Q A)),
      act.events number ++ log = log ∨ ∃ e, act.events number ++ log = e :: log := by
    intro number act log
    cases act with
    | send q => exact .inr ⟨_, rfl⟩
    | hear q a => exact .inr ⟨_, rfl⟩
    | _ => exact .inl rfl
  cases h with
  | lead hf he =>
    rcases lead_cases he with ⟨act', s', rfl, _, rfl⟩ | ⟨span, b, rfl, hb, rfl⟩ | ⟨rfl, ha⟩
    · rw [Act.leading_asLead]
      exact hevents none act' _
    · exact .inr ⟨_, rfl⟩
    · rw [ha]
      exact .inl rfl
  | work hx hw => exact hevents _ _ _
  | _ => exact .inl rfl

/-- An event tells the act that it was logged for. -/
theorem events_inj {act act' : Act Q A} {number number' : Option Nat} {e : Event Q A}
    (h : act.events number = [e]) (h' : act'.events number' = [e]) : act = act' ∧ number = number' := by
  cases act with
  | send q =>
    cases h
    cases act' with
    | send q' =>
      cases h'
      exact ⟨rfl, rfl⟩
    | _ => nomatch h'
  | hear q a =>
    cases h
    cases act' with
    | hear q' a' =>
      cases h'
      exact ⟨rfl, rfl⟩
    | _ => nomatch h'
  | _ => nomatch h

/-- A step that logs an act is that act, of the foreground or of an execution. -/
theorem Step.acts {w : World σ Q A} {T : Foreground Q A α → Prop} {p p' : Process σ Q A α}
    (h : Step w T p p') (act : Act Q A) {number : Option Nat} {e : Event Q A}
    (he : act.events number = [e]) (hl : p'.log = e :: p.log) :
    w.Moves p.engine.world act p'.engine.world ∧
      ((number = none ∧ ∃ f f', p.front = some f ∧ f.Moves act.asLead f') ∨
        ∃ x progress, x ∈ p.engine.executions ∧ number = some x.number ∧
          x.progress.Moves act (some progress) ∧ { x with progress } ∈ p'.engine.executions) := by
  -- only the foreground and the executions at work log anything
  cases h with
  | lead hf hmoves =>
    have hact := List.append_cancel_right (show _ = [e] ++ _ from hl)
    rcases lead_cases hmoves with ⟨act', s', rfl, hw, rfl⟩ | ⟨span, b, rfl, hb, rfl⟩ | ⟨rfl, hnil⟩
    · rw [Act.leading_asLead] at hact
      obtain ⟨rfl, rfl⟩ := events_inj he hact
      exact ⟨hw, .inl ⟨rfl, _, _, rfl, hf⟩⟩
    · cases hact
      cases act <;> nomatch he
    · rw [hnil] at hact
      nomatch hact
  | @work lanes before after started s s' f log x progress act' hx hw =>
    have hact := List.append_cancel_right (show _ = [e] ++ _ from hl)
    obtain ⟨rfl, rfl⟩ := events_inj he hact
    exact ⟨hw, .inr ⟨x, progress, by simp, rfl, hx, by simp⟩⟩
  | trigger => exact absurd hl List.ne_cons_self
  | rest => exact absurd hl List.ne_cons_self
  | panic => exact absurd hl List.ne_cons_self
  | complete => exact absurd hl List.ne_cons_self
  | abort => exact absurd hl List.ne_cons_self
  | restart => exact absurd hl List.ne_cons_self

/-- A process with an event in its log has come through the step that logged the event. -/
theorem Reachable.split {w : World σ Q A} {T : Foreground Q A α → Prop} {s : σ} {p : Process σ Q A α}
    (h : Reachable w T s p) {later earlier : List (Event Q A)} {e : Event Q A}
    (hl : p.log = later ++ e :: earlier) :
    ∃ p₀ p₁, Reachable w T s p₀ ∧ Step w T p₀ p₁ ∧ p₀.log = earlier ∧ p₁.log = e :: earlier ∧
      Relation.ReflTransGen (Step w T) p₁ p := by
  -- by induction on the run: either its last step logged the event, or the run before it had it
  induction h generalizing later with
  | refl => simp [idle] at hl
  | @tail p p' hr hstep ih =>
    have hbefore : (∃ l, p.log = l ++ e :: earlier) → ∃ p₀ p₁, Reachable w T s p₀ ∧ Step w T p₀ p₁ ∧
        p₀.log = earlier ∧ p₁.log = e :: earlier ∧ Relation.ReflTransGen (Step w T) p₁ p' := by
      rintro ⟨l, hp⟩
      obtain ⟨p₀, p₁, h₀, h₁, hl₀, hl₁, hrest⟩ := ih hp
      exact ⟨p₀, p₁, h₀, h₁, hl₀, hl₁, hrest.tail hstep⟩
    rcases hstep.log_cases with hs | ⟨e', hs⟩
    · exact hbefore ⟨later, hs.symm.trans hl⟩
    · rw [hs] at hl
      cases later with
      | nil =>
        obtain ⟨rfl, rfl⟩ := List.cons.inj hl
        exact ⟨p, p', hr, hstep, rfl, hs, .refl⟩
      | cons _ later => exact hbefore ⟨later, (List.cons.inj hl).2⟩

/-- What was heard was answered by the world. -/
theorem Reachable.answered {w : World σ Q A} {T : Foreground Q A α → Prop} {s : σ}
    {p : Process σ Q A α} (h : Reachable w T s p) {number : Option Nat} {q : Q} {a : A q}
    (hm : .heard number q a ∈ p.log) :
    ∃ p₀ s', Reachable w T s p₀ ∧ w.answer q p₀.engine.world = (.answer a, s') := by
  obtain ⟨later, earlier, hlog⟩ := List.append_of_mem hm
  obtain ⟨p₀, p₁, h₀, hstep, rfl, hl, _⟩ := h.split hlog
  obtain ⟨hmoves, _⟩ := hstep.acts (.hear q a) rfl hl
  cases hmoves with
  | hear ha => exact ⟨p₀, _, h₀, ha⟩

end Process

end OracleDuty
