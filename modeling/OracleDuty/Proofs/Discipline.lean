import OracleDuty.Proofs.Process
/-!
Disciplines: what foregrounds may ask and start, and the script that background executions follow. Facts
about the world and about each execution are kept through all that a process does, when every single act
that the discipline allows keeps them.

Main statement: `Discipline.Keeps.reachable`.
-/
namespace OracleDuty

variable {σ Q S : Type} {A : Q → Type} {α : Type}

/-- What a foreground may ask, and at which stage of a script background work may start. -/
structure Discipline (Q : Type) (A : Q → Type) (S : Type) where
  script : Script Q A S
  mild : Q → Prop
  starts : Background Q A → S → Prop

structure Actor (S : Type) where
  number : Nat
  lane : String
  stage : S

def Act.About (kind : Q → Prop) : Act Q A → Prop
  | .write _ => True
  | .send q => kind q
  | .hear q _ => kind q
  | .panic q _ => kind q

theorem Act.About.mono {kind kind' : Q → Prop} {act : Act Q A} (h : act.About kind)
    (hk : ∀ q, kind q → kind' q) : act.About kind' := by
  cases act with
  | write => trivial
  | _ => exact hk _ h

def Script.step (k : Script Q A S) (m : S) : Act Q A → S
  | .hear q a => k.next m q a
  | _ => m

theorem Script.after_append (k : Script Q A S) (m : S) (t : List (Exchange Q A)) (act : Act Q A) :
    k.after m (t ++ act.exchanges) = k.step (k.after m t) act := by
  cases act <;> simp [Script.after, Act.exchanges, Script.step]

theorem Progress.Moves.about {k : Script Q A S} {x : Progress Q A α} {p : Option (Progress Q A α)}
    {act : Act Q A} {m : S} {post : S → α → Prop} (h : x.Moves act p)
    (hf : x.program.Follows k m post) : act.About (k.asks m) := by
  cases h with
  | write => trivial
  | send => exact hf.1
  | hear => exact hf.1
  | panic => exact hf.1

theorem Progress.Moves.follows {k : Script Q A S} {x p : Progress Q A α} {act : Act Q A} {m : S}
    {post : S → α → Prop} (h : x.Moves act (some p)) (hf : x.program.Follows k m post) :
    p.program.Follows k (k.step m act) post := by
  cases h with
  | write => exact hf
  | send => exact hf
  | hear => exact hf.2 _

theorem Progress.Moves.ne_panic {x p : Progress Q A α} {act : Act Q A} (h : x.Moves act (some p))
    (q : Q) (reason : Option String) : act ≠ .panic q reason := by
  rintro rfl
  nomatch h

namespace Discipline

def lead (d : Discipline Q A S) : Script (Command Q A) Command.Answer Unit where
  asks _ c := match c with
    | .ask q => d.mild q
    | .start _ b => ∃ m, d.starts b m
  next _ _ _ := ()

structure Valid (d : Discipline Q A S) (T : Foreground Q A α → Prop) : Prop where
  lead : ∀ f, T f → f.Follows d.lead () fun _ _ => True
  work : ∀ b m, d.starts b m → b.work.run.Follows d.script m fun m _ => d.script.Quiet m

structure Keeps (d : Discipline Q A S) (w : World σ Q A) (I : List (Event Q A) → σ → Prop)
    (J : List (Event Q A) → σ → Actor S → Prop) : Prop where
  start {log s} (n : Nat) {b m} : d.starts b m → I log s →
    I (.started n b :: log) s ∧ J (.started n b :: log) s ⟨n, b.lane, m⟩
  start_other {log s} (n : Nat) (b : Background Q A) {y} : J log s y → J (.started n b :: log) s y
  lead {log s s' act} : Act.About d.mild act → w.Moves s act s' → I log s →
    I (act.events none ++ log) s'
  lead_other {log s s' act y} : Act.About d.mild act → w.Moves s act s' → I log s → J log s y →
    J (act.events none ++ log) s' y
  work {log s s' act x} : Act.About (d.script.asks x.stage) act → w.Moves s act s' → I log s →
    J log s x → I (act.events (some x.number) ++ log) s' ∧
      ((∀ q reason, act ≠ .panic q reason) →
        J (act.events (some x.number) ++ log) s' { x with stage := d.script.step x.stage act })
  work_other {log s s' act x y} : Act.About (d.script.asks x.stage) act → w.Moves s act s' → I log s →
    J log s x → y.lane ≠ x.lane → J log s y → J (act.events (some x.number) ++ log) s' y

structure Held (d : Discipline Q A S) (I : List (Event Q A) → σ → Prop)
    (J : List (Event Q A) → σ → Actor S → Prop) (p : Process σ Q A α) : Prop where
  fact : I p.log p.engine.world
  executions : ∀ x ∈ p.engine.executions, ∀ b m, .started x.number b ∈ p.log → d.starts b m →
    J p.log p.engine.world ⟨x.number, x.lane, d.script.after m (trace x.number p.log)⟩
  front : ∀ f, p.front = some f → f.program.Follows d.lead () fun _ _ => True
  cast : ∀ n b, .started n b ∈ p.log → ∃ m, d.starts b m

variable {d : Discipline Q A S} {w : World σ Q A} {I : List (Event Q A) → σ → Prop}
  {J : List (Event Q A) → σ → Actor S → Prop} {T : Foreground Q A α → Prop}

/-- Entries are written one by one, and each of them keeps the facts. -/
theorem Keeps.writes (h : d.Keeps w I J) (span : Log.SpanFields) (entries : List Entry)
    {log : List (Event Q A)} {s : σ} (hI : I log s) :
    I log (entries.foldl (fun s entry => w.write ⟨[span], entry⟩ s) s) ∧
      ∀ y, J log s y → J log (entries.foldl (fun s entry => w.write ⟨[span], entry⟩ s) s) y := by
  -- a line is an act of the foreground that leaves nothing in the log
  induction entries generalizing s with
  | nil => exact ⟨hI, fun y hy => hy⟩
  | cons entry rest ih =>
    have ha : Act.About (A := A) d.mild (.write ⟨[span], entry⟩) := trivial
    have hm : w.Moves s (.write ⟨[span], entry⟩) (w.write ⟨[span], entry⟩ s) := .write _ _
    obtain ⟨hI', hJ'⟩ := ih (h.lead ha hm hI)
    exact ⟨hI', fun y hy => hJ' y (h.lead_other ha hm hI hy)⟩

/-- An execution that is under way follows the script from the stage that its trace has led to. -/
theorem Valid.follows {p : Process σ Q A α} (h : d.Valid T) (hs : p.Sound) {x : Execution Q A}
    (hx : x ∈ p.engine.executions) {b : Background Q A} {m : S}
    (hb : .started x.number b ∈ p.log) (hm : d.starts b m) :
    x.progress.program.Follows d.script (d.script.after m (trace x.number p.log))
      fun m _ => d.script.Quiet m := by
  obtain ⟨b', span, hb', _, hp⟩ := hs.origin x hx
  cases hs.unique _ _ _ hb hb'
  exact (Program.follows_within.mpr (h.work b m hm)).path hp

/-- The foreground acts: the facts about the executions are kept as its act is a mild one. -/
theorem Held.lead {e : Engine σ Q A} {s' : σ} {log : List (Event Q A)}
    {f f' : Option (Progress (Command Q A) Command.Answer α)} {act : Act Q A}
    (hp : d.Held I J (⟨e, f, log⟩ : Process _ _ _ _)) (hk : d.Keeps w I J) (hmild : act.About d.mild)
    (hw : w.Moves e.world act s')
    (hfront : ∀ g, f' = some g → g.program.Follows d.lead () fun _ _ => True) :
    d.Held I J (⟨{ e with world := s' }, f', act.events none ++ log⟩ : Process _ _ _ _) := by
  have hold : ∀ n b, .started n b ∈ act.events none ++ log → .started n b ∈ log := by
    intro n b hb
    cases act <;> simpa [Act.events] using hb
  constructor
  case fact => exact hk.lead hmild hw hp.fact
  case executions =>
    intro x hx b m hb hm
    have ht : trace x.number (act.events none ++ log) = trace x.number log := by
      cases act <;> simp [Act.events, trace_cons, Event.exchange?]
    rw [ht]
    exact hk.lead_other hmild hw hp.fact (hp.executions x hx b m (hold _ b hb) hm)
  case front => exact hfront
  case cast =>
    intro n b hb
    exact hp.cast n b (hold n b hb)

/-- Work is started: the facts hold of the new execution from its first stage on. -/
theorem Held.start {e : Engine σ Q A} {log : List (Event Q A)}
    {f f' : Option (Progress (Command Q A) Command.Answer α)} {b : Background Q A}
    {span : Log.SpanFields} {m : S} (hp : d.Held I J (⟨e, f, log⟩ : Process _ _ _ _))
    (hk : d.Keeps w I J) (hs : (⟨e, f, log⟩ : Process _ _ _ _).Sound) (hm : d.starts b m)
    (hfront : ∀ g, f' = some g → g.program.Follows d.lead () fun _ _ => True) (lanes : Lanes) :
    d.Held I J (⟨{ e with
      lanes
      executions := e.executions ++ [⟨e.started, b.lane, span, .ready (b.work.run.within span)⟩]
      started := e.started + 1 }, f', .started e.started b :: log⟩ : Process _ _ _ _) := by
  have ht : ∀ n, trace n (.started e.started b :: log) = trace n log := by
    simp [trace_cons, Event.exchange?]
  have hcast : ∀ n b', .started n b' ∈ .started e.started b :: log →
      n = e.started ∧ b' = b ∨ .started n b' ∈ log := by
    intro n b' hb'
    rcases List.mem_cons.mp hb' with hb' | hb'
    · exact .inl ⟨(Event.started.inj hb').1, (Event.started.inj hb').2⟩
    · exact .inr hb'
  constructor
  case fact => exact (hk.start _ hm hp.fact).1
  case executions =>
    intro x hx b' m' hb' hm'
    rw [ht]
    -- the number of the new execution is above those of all others
    rcases List.mem_append.mp hx with hx | hx
    · rcases hcast _ _ hb' with ⟨hn, _⟩ | hb'
      · exact absurd hn (Nat.ne_of_lt (hs.number_lt hx))
      · exact hk.start_other _ _ (hp.executions x hx b' m' hb' hm')
    · cases List.mem_singleton.mp hx
      rcases hcast _ _ hb' with ⟨_, rfl⟩ | hb'
      · have hnil : trace e.started log = [] :=
          trace_eq_nil fun q a hq => Nat.lt_irrefl _ (hs.below _ hq _ rfl)
        have hJ := (hk.start e.started hm' hp.fact).2
        simp only [hnil]
        exact hJ
      · exact absurd (hs.below _ hb' _ rfl) (Nat.lt_irrefl _)
  case front => exact hfront
  case cast =>
    intro n b' hb'
    rcases hcast n b' hb' with ⟨_, rfl⟩ | hb'
    · exact ⟨m, hm⟩
    · exact hp.cast n b' hb'

/-- An execution that acts keeps the facts about the world and about the executions beside it. -/
theorem Held.beside {lanes : Lanes} {before after : List (Execution Q A)} {started : Nat} {s s' : σ}
    {f : Option (Progress (Command Q A) Command.Answer α)} {log : List (Event Q A)} {x : Execution Q A}
    {act : Act Q A} {p : Option (Progress Q A (Except Report Unit))}
    (hp : d.Held I J (⟨⟨lanes, before ++ x :: after, started, s⟩, f, log⟩ : Process _ _ _ _))
    (hk : d.Keeps w I J) (hd : d.Valid T)
    (hs : (⟨⟨lanes, before ++ x :: after, started, s⟩, f, log⟩ : Process _ _ _ α).Sound)
    (hx : x.progress.Moves act p) (hw : w.Moves s act s') :
    I (act.events (some x.number) ++ log) s' ∧
      ∀ y ∈ before ++ after, ∀ b m, .started y.number b ∈ log → d.starts b m →
        J (act.events (some x.number) ++ log) s'
          ⟨y.number, y.lane, d.script.after m (trace y.number log)⟩ := by
  have hxm : x ∈ before ++ x :: after := by simp
  obtain ⟨b, _, hb, _⟩ := hs.origin x hxm
  obtain ⟨m, hm⟩ := hp.cast _ _ hb
  have hJ := hp.executions x hxm b m hb hm
  have habout := hx.about (hd.follows hs hxm hb hm)
  refine ⟨(hk.work habout hw hp.fact hJ).1, ?_⟩
  -- those beside it are in other lanes
  intro y hy b' m' hb' hm'
  have hym : y ∈ before ++ x :: after := by
    rcases List.mem_append.mp hy with hy | hy <;> simp [hy]
  have hlane := Process.ne_of_nodup_map hs.lanes hy
  exact hk.work_other habout hw hp.fact hJ hlane (hp.executions y hym b' m' hb' hm')

/-- An execution that goes on keeps the facts, those about itself included. -/
theorem Held.work {lanes : Lanes} {before after : List (Execution Q A)} {started : Nat} {s s' : σ}
    {f : Option (Progress (Command Q A) Command.Answer α)} {log : List (Event Q A)} {x : Execution Q A}
    {act : Act Q A} {p : Progress Q A (Except Report Unit)}
    (hp : d.Held I J (⟨⟨lanes, before ++ x :: after, started, s⟩, f, log⟩ : Process _ _ _ _))
    (hk : d.Keeps w I J) (hd : d.Valid T)
    (hs : (⟨⟨lanes, before ++ x :: after, started, s⟩, f, log⟩ : Process _ _ _ α).Sound)
    (hx : x.progress.Moves act (some p)) (hw : w.Moves s act s') :
    d.Held I J (⟨⟨lanes, before ++ { x with progress := p } :: after, started, s'⟩, f,
      act.events (some x.number) ++ log⟩ : Process _ _ _ α) := by
  have hxm : x ∈ before ++ x :: after := by simp
  have hold : ∀ n b, .started n b ∈ act.events (some x.number) ++ log → .started n b ∈ log := by
    intro n b hb
    cases act <;> simpa [Act.events] using hb
  obtain ⟨hI, hbeside⟩ := hp.beside hk hd hs hx hw
  have hother : ∀ y ∈ before ++ after, ∀ b m, .started y.number b ∈ act.events (some x.number) ++ log →
      d.starts b m → J (act.events (some x.number) ++ log) s'
        ⟨y.number, y.lane, d.script.after m (trace y.number (act.events (some x.number) ++ log))⟩ := by
    intro y hy b m hb hm
    rw [trace_events_of_ne (Process.ne_of_nodup_map hs.numbers hy).symm]
    exact hbeside y hy b m (hold _ _ hb) hm
  constructor
  case fact => exact hI
  case executions =>
    intro y hy b m hb hm
    simp only [List.mem_append, List.mem_cons] at hy
    -- only the middle one has moved, and its part of the log is longer by the act
    rcases hy with hy | rfl | hy
    · exact hother y (List.mem_append_left _ hy) b m hb hm
    · have hJ := hp.executions x hxm b m (hold _ _ hb) hm
      have habout := hx.about (hd.follows hs hxm (hold _ _ hb) hm)
      simp only [trace_events, Script.after_append]
      exact (hk.work habout hw hp.fact hJ).2 hx.ne_panic
    · exact hother y (List.mem_append_right _ hy) b m hb hm
  case front => exact hp.front
  case cast =>
    intro n b hb
    exact hp.cast n b (hold n b hb)

/-- One step of a process keeps the facts, whichever part of the process takes it. -/
theorem Held.step {p p' : Process σ Q A α} (hp : d.Held I J p) (hk : d.Keeps w I J)
    (hd : d.Valid T) (hs : p.Sound) (h : Process.Step w T p p') : d.Held I J p' := by
  cases h with
  | trigger hT =>
    refine ⟨hp.fact, hp.executions, ?_, hp.cast⟩
    rintro _ ⟨⟩
    exact hd.lead _ hT
  | rest => exact ⟨hp.fact, hp.executions, by simp, hp.cast⟩
  | @lead e e' log f f' act hf he =>
    have hfront : ∀ g, f' = some g → g.program.Follows d.lead () fun _ _ => True := by
      rintro g rfl
      exact hf.follows (hp.front f rfl)
    have habout := hf.about (hp.front f rfl)
    -- it acts in the world, or starts an execution, or does nothing
    rcases Process.lead_cases he with ⟨act', s', rfl, hw, rfl⟩ | ⟨span, b, rfl, hb, rfl⟩ | ⟨rfl, ha⟩
    · have hmild : act'.About d.mild := by
        cases act' with
        | write => trivial
        | _ => exact habout
      rw [Act.leading_asLead]
      exact hp.lead hk hmild hw hfront
    · obtain ⟨m, hm⟩ := habout
      exact hp.start hk hs hm hfront _
    · simp only [ha, List.nil_append]
      exact ⟨hp.fact, hp.executions, hfront, hp.cast⟩
  | work hx hw => exact hp.work hk hd hs hx hw
  | @panic lanes before after started s s' f log x q reason hx hw =>
    -- a panic ends the execution, and how it ended is written
    obtain ⟨hI, hbeside⟩ := hp.beside hk hd hs hx hw
    obtain ⟨hI', hJ⟩ := hk.writes x.span (Lane.endEntries x.lane (.panicked reason)) hI
    exact ⟨hI', fun y hy b m hb hm => hJ _ (hbeside y hy b m hb hm), hp.front, hp.cast⟩
  | @complete lanes before after started s f log x result hx =>
    obtain ⟨hI', hJ⟩ := hk.writes x.span (Lane.endEntries x.lane (.completed result)) hp.fact
    refine ⟨hI', ?_, hp.front, hp.cast⟩
    intro y hy b m hb hm
    have hym : y ∈ before ++ x :: after := by
      rcases List.mem_append.mp hy with hy | hy <;> simp [hy]
    exact hJ _ (hp.executions y hym b m hb hm)
  | abort cut =>
    exact ⟨hp.fact, fun x hx => hp.executions x (List.mem_filter.mp hx).1, hp.front, hp.cast⟩
  | restart => exact ⟨hp.fact, by simp [Engine.idle], by simp, hp.cast⟩

/-- A request is sent by the foreground, and then it is mild, or by an execution at a stage that has it. -/
theorem Held.sent {p p' : Process σ Q A α} (hp : d.Held I J p) (hd : d.Valid T) (hs : p.Sound)
    (h : Process.Step w T p p') {number : Option Nat} {q : Q} (hl : p'.log = .sent number q :: p.log) :
    w.Moves p.engine.world (.send q) p'.engine.world ∧ (number = none ∧ d.mild q ∨
      ∃ x : Actor S, number = some x.number ∧ J p.log p.engine.world x ∧ d.script.asks x.stage q) := by
  obtain ⟨hw, ⟨rfl, f, f', hfront, hf⟩ | ⟨x, progress, hxm, rfl, hx, _⟩⟩ :=
    h.acts (.send q) rfl hl
  · exact ⟨hw, .inl ⟨rfl, hf.about (hp.front f hfront)⟩⟩
  · obtain ⟨b, _, hb, _⟩ := hs.origin x hxm
    obtain ⟨m, hm⟩ := hp.cast _ _ hb
    exact ⟨hw, .inr ⟨_, rfl, hp.executions x hxm b m hb hm, hx.about (hd.follows hs hxm hb hm)⟩⟩

/-- An answer that is heard by an execution is one of the world to what the execution was at. -/
theorem Held.heard {p p' : Process σ Q A α} (hp : d.Held I J p) (hd : d.Valid T) (hs : p.Sound)
    (h : Process.Step w T p p') {n : Nat} {q : Q} {a : A q}
    (hl : p'.log = .heard (some n) q a :: p.log) :
    w.answer q p.engine.world = (.answer a, p'.engine.world) ∧
      (∃ x ∈ p'.engine.executions, x.number = n) ∧ ∀ b m, .started n b ∈ p.log → d.starts b m →
        J p.log p.engine.world ⟨n, b.lane, d.script.after m (trace n p.log)⟩ ∧
          d.script.asks (d.script.after m (trace n p.log)) q := by
  obtain ⟨hmoves, ⟨hnone, _⟩ | ⟨x, progress, hxm, hn, hx, hxm'⟩⟩ := h.acts (.hear q a) rfl hl
  · nomatch hnone
  · cases hn
    have hw : w.answer q p.engine.world = (.answer a, p'.engine.world) := by
      cases hmoves
      assumption
    refine ⟨hw, ⟨{ x with progress }, hxm', rfl⟩, fun b m hb hm => ?_⟩
    obtain ⟨b', _, hb', hlane, _⟩ := hs.origin x hxm
    cases hs.unique _ _ _ hb hb'
    rw [hlane]
    exact ⟨hp.executions x hxm b m hb hm, hx.about (hd.follows hs hxm hb hm)⟩

theorem Held.run {p p' : Process σ Q A α} (hp : d.Held I J p) (hk : d.Keeps w I J) (hd : d.Valid T)
    {s : σ} (hr : Process.Reachable w T s p) (h : Relation.ReflTransGen (Process.Step w T) p p') :
    d.Held I J p' := by
  induction h with
  | refl => exact hp
  | tail h hstep ih => exact ih.step hk hd (Process.sound_of_reachable (hr.trans h)) hstep

/-- Facts that hold at first and are kept by every act hold whatever a process does. -/
theorem Keeps.reachable (hk : d.Keeps w I J) (hd : d.Valid T) {s : σ} (h0 : I [] s)
    {p : Process σ Q A α} (h : Process.Reachable w T s p) : d.Held I J p := by
  have hidle : d.Held I J (Process.idle s : Process σ Q A α) :=
    ⟨h0, by simp [Process.idle, Engine.idle], by simp [Process.idle], by simp [Process.idle]⟩
  exact hidle.run hk hd .refl h

/-- Facts about what was logged since some time are kept as well. -/
theorem Keeps.since (hk : d.Keeps w I J) (base : List (Event Q A)) :
    d.Keeps w (fun log s => ∃ later, log = later ++ base ∧ I later s)
      fun log s x => ∃ later, log = later ++ base ∧ J later s x where
  start := by
    rintro _ s n b m hb ⟨later, rfl, hI⟩
    obtain ⟨hI', hJ⟩ := hk.start n hb hI
    exact ⟨⟨_ :: later, rfl, hI'⟩, ⟨_ :: later, rfl, hJ⟩⟩
  start_other := by
    rintro _ s n b y ⟨later, rfl, hy⟩
    exact ⟨_ :: later, rfl, hk.start_other n b hy⟩
  lead := by
    rintro _ s s' act ha hm ⟨later, rfl, hI⟩
    exact ⟨_, (List.append_assoc ..).symm, hk.lead ha hm hI⟩
  lead_other := by
    rintro _ s s' act y ha hm ⟨later, rfl, hI⟩ ⟨later', hl, hy⟩
    cases List.append_cancel_right hl
    exact ⟨_, (List.append_assoc ..).symm, hk.lead_other ha hm hI hy⟩
  work := by
    rintro _ s s' act x ha hm ⟨later, rfl, hI⟩ ⟨later', hl, hx⟩
    cases List.append_cancel_right hl
    obtain ⟨hI', hJ⟩ := hk.work ha hm hI hx
    exact ⟨⟨_, (List.append_assoc ..).symm, hI'⟩,
      fun hnp => ⟨_, (List.append_assoc ..).symm, hJ hnp⟩⟩
  work_other := by
    rintro _ s s' act x y ha hm ⟨later, rfl, hI⟩ ⟨later', hl, hx⟩ hne ⟨later'', hl', hy⟩
    cases List.append_cancel_right hl
    cases List.append_cancel_right hl'
    exact ⟨_, (List.append_assoc ..).symm, hk.work_other ha hm hI hx hne hy⟩

end Discipline

end OracleDuty
