import OracleDuty.Proofs.Process
/-!
The engine as a process: whatever the engine does in one go, when it takes its executions further or carries
out a foreground, is done by steps of a process.

Main statements: `Reachable.proceedAll`, `Reachable.advance` and `release_steps`; where all requests are
answered `work_steps` and `lead_steps` tell the log as well.
-/
namespace OracleDuty

variable {σ Q : Type} {A : Q → Type} {α : Type}

/-- A program is carried out up to where it stands at another; each request is taken and answered at once. -/
inductive World.Carries (w : World σ Q A) :
    Program Q A α → σ → List (Exchange Q A) → Program Q A α → σ → Prop where
  | refl (p : Program Q A α) (s : σ) : Carries w p s [] p s
  | note {line : Line} {p r : Program Q A α} {s s' : σ} {t : List (Exchange Q A)}
    (h : Carries w p (w.write line s) t r s') : Carries w (.note line p) s t r s'
  | ask {q : Q} {next : A q → Program Q A α} {a : A q} {r : Program Q A α} {s s₁ s' : σ}
    {t : List (Exchange Q A)} (ha : w.answer q (w.accept q s).2 = (.answer a, s₁))
    (h : Carries w (next a) s₁ t r s') : Carries w (.ask q next) s (⟨q, a⟩ :: t) r s'

inductive World.Stops (w : World σ Q A) : Program Q A α → σ → Stage Q A α × σ → Prop where
  | finished (a : α) (s : σ) : Stops w (.done a) s (.finished a, s)
  | held (q : Q) (next : A q → Program Q A α) (s : σ) :
    Stops w (.ask q next) s (.held q next, (w.accept q s).2)
  | panicked {q : Q} (next : A q → Program Q A α) {reason : Option String} {s s' : σ}
    (h : w.answer q (w.accept q s).2 = (.panic reason, s')) :
    Stops w (.ask q next) s (.panicked reason, s')

/-- To take a program as far as it goes is to carry it out up to a place where it stops. -/
theorem advance_carries (w : World σ Q A) (p : Program Q A α) (s : σ) :
    ∃ t r s₀, w.Carries p s t r s₀ ∧ w.Stops r s₀ (p.advance w s) := by
  -- the world changes on the way, so the induction on the program is for any world
  induction p generalizing s with
  | done a => exact ⟨[], _, s, .refl _ _, .finished a s⟩
  | note line p ih =>
    obtain ⟨t, r, s₀, hc, hs⟩ := ih (w.write line s)
    exact ⟨t, r, s₀, .note hc, hs⟩
  | ask q next ih =>
    rw [Program.advance]
    cases hacc : w.accept q s with
    | mk now s₁ =>
      have hs₁ : s₁ = (w.accept q s).2 := by rw [hacc]
      cases now with
      | false =>
        refine ⟨[], _, s, .refl _ _, ?_⟩
        rw [hs₁]
        exact .held q next s
      | true =>
        cases hans : w.answer q s₁ with
        | mk reply s₂ =>
          have hans' : w.answer q (w.accept q s).2 = (reply, s₂) := hs₁ ▸ hans
          cases reply with
          | answer a =>
            obtain ⟨t, r, s₀, hc, hs⟩ := ih a s₂
            simp only [hans]
            exact ⟨_, r, s₀, .ask hans' hc, hs⟩
          | panic reason =>
            simp only [hans]
            exact ⟨[], _, s, .refl _ _, .panicked next hans'⟩

def World.Serves (w : World σ Q A) : σ → List (Exchange Q A) → σ → Prop
  | s, [], s' => s' = s
  | s, e :: t, s' => ∃ s₁, w.answer e.request (w.accept e.request s).2 = (.answer e.answer, s₁) ∧
    w.Serves s₁ t s'

/-- What is served in two parts is served as a whole. -/
theorem World.Serves.append {w : World σ Q A} {s s₁ s' : σ} {t u : List (Exchange Q A)}
    (h : w.Serves s t s₁) (k : w.Serves s₁ u s') : w.Serves s (t ++ u) s' := by
  induction t generalizing s with
  | nil =>
    cases h
    exact k
  | cons e t ih =>
    obtain ⟨s₂, ha, hs⟩ := h
    exact ⟨s₂, ha, ih hs⟩

/-- Where lines of the journal change nothing, a program is carried out along a path that is served. -/
theorem World.Serves.carries {w : World σ Q A} (hquiet : ∀ line s, w.write line s = s)
    {p r : Program Q A α} {s s' : σ} {t : List (Exchange Q A)} (h : w.Serves s t s') (hp : p.Path t r) :
    w.Carries p s t r s' := by
  induction hp generalizing s with
  | refl p =>
    cases h
    exact .refl _ _
  | note _ ih =>
    refine .note ?_
    rw [hquiet]
    exact ih h
  | ask _ ih =>
    obtain ⟨s₁, ha, hs⟩ := h
    exact .ask ha (ih hs)

/-! ### Executions -/

def transcript (number : Option Nat) : List (Exchange Q A) → List (Event Q A)
  | [] => []
  | e :: t => transcript number t ++ [.heard number e.request e.answer, .sent number e.request]

theorem transcript_append (number : Option Nat) (t : List (Exchange Q A)) (e : Exchange Q A) :
    transcript number (t ++ [e]) =
      .heard number e.request e.answer :: .sent number e.request :: transcript number t := by
  induction t with
  | nil => rfl
  | cons e' t ih =>
    rw [List.cons_append, transcript, ih]
    rfl

theorem started_not_mem_transcript (number : Option Nat) (t : List (Exchange Q A)) (n : Nat)
    (b : Background Q A) : .started n b ∉ transcript number t := by
  induction t with
  | nil => exact List.not_mem_nil
  | cons e t ih =>
    rw [transcript, List.mem_append, not_or]
    exact ⟨ih, by simp⟩

variable {w : World σ Q A} {T : Foreground Q A α → Prop}

namespace Process

abbrev Steps (w : World σ Q A) (T : Foreground Q A α → Prop) :
    Process σ Q A α → Process σ Q A α → Prop := Relation.ReflTransGen (Step w T)

variable {lanes : Lanes} {before after : List (Execution Q A)} {started : Nat} {s s' : σ}
  {f : Option (Progress (Command Q A) Command.Answer α)} {log : List (Event Q A)} {x : Execution Q A}

inductive Work (w : World σ Q A) : Process σ Q A α → Process σ Q A α → Prop where
  | act {lanes : Lanes} {before after : List (Execution Q A)} {started : Nat} {s s' : σ}
    {f : Option (Progress (Command Q A) Command.Answer α)} {log : List (Event Q A)} {x : Execution Q A}
    {p : Progress Q A (Except Report Unit)} {act : Act Q A}
    (hx : x.progress.Moves act (some p)) (hw : w.Moves s act s') :
    Work w ⟨⟨lanes, before ++ x :: after, started, s⟩, f, log⟩
      ⟨⟨lanes, before ++ { x with progress := p } :: after, started, s'⟩, f,
        act.events (some x.number) ++ log⟩
  | panic {lanes : Lanes} {before after : List (Execution Q A)} {started : Nat} {s s' : σ}
    {f : Option (Progress (Command Q A) Command.Answer α)} {log : List (Event Q A)} {x : Execution Q A}
    {q : Q} {reason : Option String}
    (hx : x.progress.Moves (.panic q reason) none) (hw : w.Moves s (.panic q reason) s') :
    Work w ⟨⟨lanes, before ++ x :: after, started, s⟩, f, log⟩
      ⟨Engine.finish w x (.panicked reason) ⟨lanes, before ++ after, started, s'⟩, f, log⟩
  | complete {lanes : Lanes} {before after : List (Execution Q A)} {started : Nat} {s : σ}
    {f : Option (Progress (Command Q A) Command.Answer α)} {log : List (Event Q A)} {x : Execution Q A}
    {result : Except Report Unit} (hx : x.progress = .ready (.done result)) :
    Work w ⟨⟨lanes, before ++ x :: after, started, s⟩, f, log⟩
      ⟨Engine.finish w x (.completed result) ⟨lanes, before ++ after, started, s⟩, f, log⟩

abbrev Works (w : World σ Q A) : Process σ Q A α → Process σ Q A α → Prop :=
  Relation.ReflTransGen (Work w)

theorem Work.step {p p' : Process σ Q A α} (h : Work w p p') : Step w T p p' := by
  cases h with
  | act hx hw => exact .work hx hw
  | panic hx hw => exact .panic hx hw
  | complete hx => exact .complete hx

theorem steps_of_works {p p' : Process σ Q A α} (h : Works w p p') : Steps w T p p' :=
  Relation.ReflTransGen.mono (fun _ _ hwork => hwork.step) _ _ h

theorem act_step {progress progress' : Progress Q A (Except Report Unit)} {act : Act Q A}
    (hx : progress.Moves act (some progress')) (hw : w.Moves s act s') (log : List (Event Q A)) :
    Work w ⟨⟨lanes, before ++ { x with progress } :: after, started, s⟩, f, log⟩
      ⟨⟨lanes, before ++ { x with progress := progress' } :: after, started, s'⟩, f,
        act.events (some x.number) ++ log⟩ :=
  .act (x := { x with progress }) hx hw

theorem panic_step {q : Q} {next : A q → Program Q A (Except Report Unit)} {reason : Option String}
    (h : w.answer q s = (.panic reason, s')) (e : Engine σ Q A) (log : List (Event Q A)) :
    Work w ⟨⟨e.lanes, e.executions ++ { x with progress := .held q next } :: after, e.started, s⟩, f, log⟩
      ⟨{ Engine.settle w x (.panicked reason, s') e with
        executions := (Engine.settle w x (.panicked reason, s') e).executions ++ after }, f, log⟩ :=
  .panic (x := { x with progress := .held q next }) (.panic q next reason) (.panic h)

/-- Each exchange of an execution is one step of the process. -/
theorem work_steps {p r : Program Q A (Except Report Unit)} {t : List (Exchange Q A)}
    (h : w.Carries p s t r s') (log : List (Event Q A)) :
    Works w ⟨⟨lanes, before ++ { x with progress := .ready p } :: after, started, s⟩, f, log⟩
      ⟨⟨lanes, before ++ { x with progress := .ready r } :: after, started, s'⟩, f,
        transcript (some x.number) t ++ log⟩ := by
  induction h generalizing log with
  | refl p s => exact .refl
  | note h ih => exact .head (act_step (.write _ _) (.write _ _) log) (ih log)
  | ask ha h ih =>
    -- a request takes two steps: it is sent, and its answer is heard
    rw [transcript, List.append_assoc]
    refine .head (act_step (.send _ _) (.send _ _) log) ?_
    refine .head (act_step (.hear _ _ _) (.hear ha) _) ?_
    exact ih _

/-- An execution that has come to its end is taken out, and one that is held stays in its place. -/
theorem settle_steps {r : Program Q A (Except Report Unit)}
    {out : Stage Q A (Except Report Unit) × σ} (h : w.Stops r s out) (e : Engine σ Q A)
    (after : List (Execution Q A)) (log : List (Event Q A)) : ∃ log', Works w
      ⟨⟨e.lanes, e.executions ++ { x with progress := .ready r } :: after, e.started, s⟩, f, log⟩
      ⟨{ Engine.settle w x out e with
        executions := (Engine.settle w x out e).executions ++ after }, f, log'⟩ := by
  cases h with
  | finished result s =>
    exact ⟨log, .single (Work.complete (x := { x with progress := .ready (.done result) }) rfl)⟩
  | held q next s =>
    refine ⟨.sent (some x.number) q :: log, ?_⟩
    rw [Engine.settle, List.append_assoc]
    exact .single (act_step (.send q next) (.send q s) log)
  | panicked next h =>
    exact ⟨_, .head (act_step (.send _ next) (.send _ _) log) (.single (panic_step h e _))⟩

/-- Taking an execution further is a course of steps. -/
theorem proceed_steps (released : Execution Q A → Bool) (e : Engine σ Q A) (x : Execution Q A)
    (after : List (Execution Q A)) (log : List (Event Q A)) : ∃ log', Works w
      ⟨{ e with executions := e.executions ++ x :: after }, f, log⟩
      ⟨{ Engine.proceed w released e x with
        executions := (Engine.proceed w released e x).executions ++ after }, f, log'⟩ := by
  have hadvance : ∀ (p : Program Q A (Except Report Unit)) (s : σ) (log : List (Event Q A)),
      ∃ log', Works w
        ⟨⟨e.lanes, e.executions ++ { x with progress := .ready p } :: after, e.started, s⟩, f, log⟩
        ⟨{ Engine.settle w x (p.advance w s) e with
          executions := (Engine.settle w x (p.advance w s) e).executions ++ after }, f, log'⟩ := by
    intro p s log
    obtain ⟨t, r, s₀, hc, hs⟩ := advance_carries w p s
    obtain ⟨log', hsettle⟩ := settle_steps (f := f) (x := x) hs e after
      (transcript (some x.number) t ++ log)
    exact ⟨log', (work_steps hc log).trans hsettle⟩
  obtain ⟨number, lane, span, p | ⟨q, next⟩⟩ := x
  · exact hadvance p e.world log
  · -- an answer that was held back is heard first, if it is let go
    rw [Engine.proceed]
    dsimp only
    split
    · rw [Stage.release]
      cases hans : w.answer q e.world with
      | mk reply s₁ =>
        cases reply with
        | answer a =>
          obtain ⟨log', hrest⟩ := hadvance (next a) s₁ (.heard (some number) q a :: log)
          exact ⟨log', .head (act_step (x := ⟨number, lane, span, .held q next⟩) (.hear q next a)
            (.hear hans) log) hrest⟩
        | panic reason =>
          exact ⟨log, .single (panic_step (x := ⟨number, lane, span, .held q next⟩) hans e log)⟩
    · exact ⟨log, by rw [List.append_assoc]; exact .refl⟩

/-- Taking all executions further, in their order, is a course of steps. -/
theorem proceedAll_steps (released : Execution Q A → Bool) (e : Engine σ Q A)
    (log : List (Event Q A)) : ∃ log', Works w ⟨e, f, log⟩ ⟨e.proceedAll w released, f, log'⟩ := by
  -- by induction on the executions still to go, which stand after those taken further
  have hfold : ∀ (xs : List (Execution Q A)) (e : Engine σ Q A) (log : List (Event Q A)),
      ∃ log', Works w ⟨{ e with executions := e.executions ++ xs }, f, log⟩
        ⟨xs.foldl (Engine.proceed w released) e, f, log'⟩ := by
    intro xs
    induction xs with
    | nil => exact fun e log => ⟨log, by rw [List.append_nil]; exact .refl⟩
    | cons x xs ih =>
      intro e log
      obtain ⟨log₁, hfirst⟩ := proceed_steps (f := f) released e x xs log
      obtain ⟨log₂, hrest⟩ := ih (Engine.proceed w released e x) log₁
      exact ⟨log₂, hfirst.trans hrest⟩
  exact hfold e.executions { e with executions := [] } log

/-- An execution goes along a path that is served. -/
theorem Reachable.work {s₀ : σ} {number : Nat} {lane : String} {span : Log.SpanFields}
    {p r : Program Q A (Except Report Unit)} {t : List (Exchange Q A)}
    (h : Reachable w T s₀
      ⟨⟨lanes, before ++ ⟨number, lane, span, .ready (p.within span)⟩ :: after, started, s⟩, f, log⟩)
    (hquiet : ∀ line s, w.write line s = s) (hs : w.Serves s t s') (hp : p.Path t r) :
    Reachable w T s₀
      ⟨⟨lanes, before ++ ⟨number, lane, span, .ready (r.within span)⟩ :: after, started, s'⟩, f,
        transcript (some number) t ++ log⟩ :=
  h.trans (steps_of_works
    (work_steps (x := ⟨number, lane, span, .ready p⟩) (hs.carries hquiet (hp.within span)) log))

/-- Before the last exchange is heard its request is sent. -/
theorem Reachable.sends {s₀ : σ} {p : Process σ Q A α} (h : Reachable w T s₀ p) {number : Option Nat}
    {t : List (Exchange Q A)} {e : Exchange Q A} {rest : List (Event Q A)}
    (hl : p.log = transcript number (t ++ [e]) ++ rest) :
    ∃ p₀ p₁, Reachable w T s₀ p₀ ∧ Step w T p₀ p₁ ∧ p₁.log = .sent number e.request :: p₀.log ∧
      p₀.log = transcript number t ++ rest := by
  rw [transcript_append] at hl
  have hsent : p.log = [_] ++ .sent number e.request :: (transcript number t ++ rest) := hl
  obtain ⟨p₀, p₁, h₀, hstep, hl₀, hl₁, _⟩ := h.split hsent
  exact ⟨p₀, p₁, h₀, hstep, by rw [hl₁, hl₀], hl₀⟩

/-- An execution whose path is served comes to its end, and its lane is free again. -/
theorem Reachable.finish {s₀ : σ} {number : Nat} {lane : String} {span : Log.SpanFields}
    {p : Program Q A (Except Report Unit)} {result : Except Report Unit} {t : List (Exchange Q A)}
    (h : Reachable w T s₀
      ⟨⟨lanes, before ++ ⟨number, lane, span, .ready (p.within span)⟩ :: after, started, s⟩, f, log⟩)
    (hquiet : ∀ line s, w.write line s = s) (hs : w.Serves s t s') (hp : p.Ends t result) :
    Reachable w T s₀
      ⟨⟨lanes.free lane, before ++ after, started, s'⟩, f, transcript (some number) t ++ log⟩ := by
  have hwrite : ∀ (entries : List Entry) (e : Engine σ Q A), Engine.write w span entries e = e := by
    intro entries e
    have hworld : ∀ s, entries.foldl (fun s entry => w.write ⟨[span], entry⟩ s) s = s := by
      intro s
      induction entries with
      | nil => rfl
      | cons entry rest ih => rw [List.foldl_cons, hquiet, ih]
    rw [Engine.write, hworld]
  have hdone := (h.work hquiet hs hp).tail (.complete (x := ⟨number, lane, span, _⟩) rfl)
  rw [Engine.finish, hwrite] at hdone
  exact hdone

/-! ### Foregrounds -/

def starts : (c : Command Q A) → Command.Answer c → Nat
  | .start _ _, true => 1
  | _, _ => 0

def leadTranscript (started : Nat) : List (Exchange (Command Q A) Command.Answer) → List (Event Q A)
  | [] => []
  | ⟨c, a⟩ :: t => leadTranscript (started + starts c a) t ++
    ((Act.hear c a).leading started ++ (Act.send c).leading started)

theorem started_accept (e : Engine σ Q A) (c : Command Q A) :
    ((Engine.foreground w).accept c e).2.started = e.started := by
  cases c <;> rfl

/-- A number is used up by each start that is accepted, and by nothing else. -/
theorem started_answer {e e' : Engine σ Q A} {c : Command Q A} {a : Command.Answer c}
    (h : (Engine.foreground w).answer c e = (.answer a, e')) : e'.started = e.started + starts c a := by
  cases c with
  | ask q =>
    obtain ⟨_, rfl⟩ := Prod.mk.injEq .. ▸ h
    rfl
  | start span b =>
    simp only [Engine.foreground, Engine.start] at h
    split at h
    · obtain ⟨ha, rfl⟩ := Prod.mk.injEq .. ▸ h
      cases ha
      rfl
    · obtain ⟨ha, rfl⟩ := Prod.mk.injEq .. ▸ h
      cases ha
      rfl

/-- A foreground that is carried out asks and starts one thing after the other. -/
theorem lead_steps {p r : Foreground Q A α} {e e' : Engine σ Q A}
    {t : List (Exchange (Command Q A) Command.Answer)}
    (h : (Engine.foreground w).Carries p e t r e') (log : List (Event Q A)) :
    Steps w T ⟨e, some (.ready p), log⟩ ⟨e', some (.ready r), leadTranscript e.started t ++ log⟩ := by
  induction h generalizing log with
  | refl p e => exact .refl
  | note h ih => exact .head (.lead (.write _ _) (.write _ _)) (ih log)
  | @ask c next a r e e₁ e' t ha h ih =>
    have hstarted := started_answer ha
    rw [started_accept] at hstarted
    have hsend : Step w T ⟨e, some (.ready (.ask c next)), log⟩ _ :=
      .lead (.send c next) (.send c e)
    have hhear : Step w T ⟨_, some (.held c next), (Act.send c).leading e.started ++ log⟩ _ :=
      .lead (.hear c next a) (.hear ha)
    have hrest := ih ((Act.hear c a).leading e.started ++ ((Act.send c).leading e.started ++ log))
    rw [started_accept] at hhear
    rw [hstarted] at hrest
    rw [leadTranscript, List.append_assoc, List.append_assoc]
    exact .head hsend (.head hhear hrest)

/-- A foreground whose path is served comes to its end. -/
theorem Reachable.lead {s₀ : σ} {e e' : Engine σ Q A} {p : Foreground Q A α} {a : α}
    {t : List (Exchange (Command Q A) Command.Answer)} (h : Reachable w T s₀ ⟨e, none, log⟩) (hT : T p)
    (hquiet : ∀ line s, w.write line s = s) (hs : (Engine.foreground w).Serves e t e')
    (hp : p.Ends t a) : Reachable w T s₀ ⟨e', none, leadTranscript e.started t ++ log⟩ := by
  have hquiet' : ∀ line e, (Engine.foreground w).write line e = e := by
    intro line e
    change { e with world := w.write line e.world } = e
    rw [hquiet]
  have hcarries := hs.carries hquiet' hp
  exact (h.tail (.trigger hT)).trans ((lead_steps hcarries log).tail .rest)

def asked (e : Exchange Q A) : Exchange (Command Q A) Command.Answer := ⟨.ask e.request, e.answer⟩

/-- A foreground that starts nothing is served as its world serves it. -/
theorem serves_asked {e : Engine σ Q A} {t : List (Exchange Q A)} (h : w.Serves e.world t s') :
    (Engine.foreground w).Serves e (t.map asked) { e with world := s' } := by
  induction t generalizing e with
  | nil =>
    cases h
    rfl
  | cons x t ih =>
    obtain ⟨s₁, ha, hs⟩ := h
    refine ⟨{ e with world := s₁ }, ?_, ih (e := { e with world := s₁ }) hs⟩
    simp only [asked, Engine.foreground, ha]

theorem serves_start {e : Engine σ Q A} {b : Background Q A} (span : Log.SpanFields)
    (hfree : e.lanes.isTaken b.lane = false) :
    (Engine.foreground w).Serves e [⟨.start span b, true⟩] { e with
      lanes := ⟨b.lane :: e.lanes.inFlight⟩
      executions := e.executions ++ [⟨e.started, b.lane, span, .ready (b.work.run.within span)⟩]
      started := e.started + 1 } := by
  refine ⟨_, ?_, rfl⟩
  simp only [Engine.foreground, Engine.start, Lanes.take, hfree, Bool.false_eq_true, if_false]

/-- The log of a foreground that starts nothing is the one of its exchanges. -/
theorem leadTranscript_asked (started : Nat) (t : List (Exchange Q A))
    (u : List (Exchange (Command Q A) Command.Answer)) :
    leadTranscript started (t.map asked ++ u) = leadTranscript started u ++ transcript none t := by
  induction t with
  | nil => simp [transcript]
  | cons e t ih =>
    rw [List.map_cons, List.cons_append, leadTranscript, transcript]
    change leadTranscript started (t.map asked ++ u) ++ _ = _
    rw [ih, List.append_assoc]
    rfl

def pending : Stage (Command Q A) Command.Answer α →
    Option (Progress (Command Q A) Command.Answer α)
  | .held q next => some (.held q next)
  | _ => none

/-- A foreground that stops has come there by steps of the process. -/
theorem stop_steps {r : Foreground Q A α} {e : Engine σ Q A}
    {out : Stage (Command Q A) Command.Answer α × Engine σ Q A}
    (h : (Engine.foreground w).Stops r e out) (log : List (Event Q A)) :
    ∃ log', Steps w T ⟨e, some (.ready r), log⟩ ⟨out.2, pending out.1, log'⟩ := by
  cases h with
  | finished a e => exact ⟨log, .single .rest⟩
  | held q next e => exact ⟨_, .single (.lead (.send q next) (.send q e))⟩
  | panicked next h =>
    exact ⟨_, .head (.lead (.send _ next) (.send _ _)) (.single (.lead (.panic _ _ _) (.panic h)))⟩

theorem advance_steps (p : Foreground Q A α) (e : Engine σ Q A) (log : List (Event Q A)) :
    ∃ log', Steps w T ⟨e, some (.ready p), log⟩
      ⟨(p.advance (Engine.foreground w) e).2, pending (p.advance (Engine.foreground w) e).1, log'⟩ := by
  obtain ⟨t, r, e₀, hc, hs⟩ := advance_carries (Engine.foreground w) p e
  obtain ⟨log', hstop⟩ := stop_steps (T := T) hs (leadTranscript e.started t ++ log)
  exact ⟨log', (lead_steps hc log).trans hstop⟩

/-- A held answer that is let go is heard, and the foreground goes on by steps. -/
theorem release_steps (q : Command Q A) (next : Command.Answer q → Foreground Q A α) (e : Engine σ Q A)
    (log : List (Event Q A)) :
    ∃ log', Steps w T ⟨e, some (.held q next), log⟩
      ⟨((Stage.held q next).release (Engine.foreground w) e).2,
        pending ((Stage.held q next).release (Engine.foreground w) e).1, log'⟩ := by
  rw [Stage.release]
  cases hans : (Engine.foreground w).answer q e with
  | mk reply e₁ =>
    cases reply with
    | answer a =>
      obtain ⟨log', hrest⟩ := advance_steps (w := w) (T := T) (next a) e₁
        ((Act.hear q a).leading e.started ++ log)
      exact ⟨log', .head (.lead (.hear q next a) (.hear hans)) hrest⟩
    | panic reason => exact ⟨_, .single (.lead (.panic q next reason) (.panic hans))⟩

/-- What the engine makes of a process that can be reached can be reached. -/
theorem Reachable.proceedAll {s : σ} {p : Process σ Q A α} (h : Reachable w T s p)
    (released : Execution Q A → Bool) :
    ∃ log', Reachable w T s ⟨p.engine.proceedAll w released, p.front, log'⟩ := by
  obtain ⟨log', hworks⟩ := proceedAll_steps (f := p.front) released p.engine p.log
  exact ⟨log', h.trans (steps_of_works hworks)⟩

theorem Reachable.advance {s : σ} {e : Engine σ Q A} {log : List (Event Q A)}
    (h : Reachable w T s ⟨e, none, log⟩) {p : Foreground Q A α} (hp : T p) :
    ∃ log', Reachable w T s ⟨(p.advance (Engine.foreground w) e).2,
      pending (p.advance (Engine.foreground w) e).1, log'⟩ := by
  obtain ⟨log', hsteps⟩ := advance_steps (w := w) (T := T) p e log
  exact ⟨log', (h.tail (.trigger hp)).trans hsteps⟩

end Process

end OracleDuty
