import OracleDuty.Controller
import OracleDuty.Proofs.Discipline
/-!
Foregrounds and their scripts: what a tick of the controller asks and starts, by what its tasks ask and call
for, and where this is found in the log of a process.

Main statements: `Controller.tick_follows`, and `Process.Reachable.allows`, by which whatever a foreground
sends or starts belongs to the stage that the log has led to.
-/
namespace OracleDuty

variable {σ Q S : Type} {A : Q → Type} {α : Type} {k : Script (Command Q A) Command.Answer S} {m : S}

/-! ### Ticks -/

def Script.asked (k : Script (Command Q A) Command.Answer S) : Script Q A S where
  asks m q := k.asks m (.ask q)
  next m q a := k.next m (.ask q) a

structure Script.Bears (k : Script (Command Q A) Command.Answer S) (m : S) (kind : Q → Prop)
    (called : Background Q A → Prop) : Prop where
  ask : ∀ q, kind q → k.asks m (.ask q) ∧ ∀ a, k.next m (.ask q) a = m
  start : ∀ span b, called b → k.asks m (.start span b) ∧ ∀ a, k.next m (.start span b) a = m

def Task.Keeps (t : Task Q A) (state : NetworkState) (kind : Q → Prop)
    (called : Background Q A → Prop) : Prop :=
  (Script.only kind).Guides () (t.run state) (fun _ => True) fun _ b => ∀ x, b = some x → called x

namespace Controller

theorem asForeground_follows {p : Program Q A α} {post : S → α → Prop} :
    (asForeground p).Follows k m post ↔ p.Follows k.asked m post := by
  induction p generalizing m with
  | done a => rfl
  | note line p ih => exact ih
  | ask q next ih => exact and_congr_right fun _ => forall_congr' fun a => ih a

variable {kind : Q → Prop} {called : Background Q A → Prop} {state : NetworkState}

/-- One run of a task asks what the task asks, and starts what it calls for. -/
theorem launch_follows (hk : k.Bears m kind called) {t : Task Q A} (h : t.Keeps state kind called)
    (span : Log.SpanFields) : (launch t span state).Follows k m fun m' _ => m' = m := by
  unfold launch
  refine Program.follows_bind.mpr (Program.follows_within.mpr (asForeground_follows.mpr ?_))
  refine (Program.Follows.stay h hk.ask).mono ?_
  -- the task has failed, has called for nothing, or has called for work, which is started
  rintro _ (report | _ | b) ⟨rfl, hb⟩
  · rfl
  · rfl
  · obtain ⟨hasks, hnext⟩ := hk.start span b (hb b rfl)
    refine ⟨hasks, ?_⟩
    intro accepted
    rw [hnext]
    cases accepted <;> rfl

theorem runTask_follows (hk : k.Bears m kind called) {t : Task Q A} (h : t.Keeps state kind called) :
    (runTask state t).Follows k m fun m' _ => m' = m := by
  unfold runTask
  refine Program.follows_bind.mpr (Program.follows_bind.mpr ?_)
  refine (launch_follows hk h _).mono ?_
  rintro _ (report | _) rfl <;> rfl

/-- Tasks that are run one after the other ask what each of them asks. -/
theorem runTasks_follows (hk : k.Bears m kind called) {ts : List (Task Q A)}
    (h : ∀ t ∈ ts, t.Keeps state kind called) : (runTasks state ts).Follows k m fun m' _ => m' = m := by
  induction ts with
  | nil => rfl
  | cons t rest ih =>
    refine Program.follows_bind.mpr ?_
    refine (runTask_follows hk (h t List.mem_cons_self)).mono ?_
    rintro _ _ rfl
    exact ih fun t' ht' => h t' (List.mem_cons_of_mem _ ht')

/-- A tick follows a script if its tasks keep to what belongs to the stage that the state is read at. -/
theorem tick_follows {load : ExceptT Report (Program Q A) NetworkState} {ts : List (Task Q A)}
    (h : k.asked.Guides m load (fun _ => True) fun m state => ∃ kind called, k.Bears m kind called ∧
      ∀ t ∈ ts, t.Keeps state kind called) (c : Controller) :
    (tick load ts c).Follows k m fun _ _ => True := by
  unfold tick
  refine Program.follows_bind.mpr (asForeground_follows.mpr (Program.Follows.mono h ?_))
  rintro m (report | state) hstate
  · trivial
  · obtain ⟨kind, called, hk, hkeeps⟩ := hstate
    dsimp only
    -- the tasks run only if the block is a new one
    split
    · refine Program.follows_bind.mpr (Program.follows_bind.mpr ?_)
      exact (runTasks_follows hk hkeeps).mono fun _ _ _ => trivial
    · trivial

end Controller

/-! ### Logs -/

structure Script.Tracks (k : Script (Command Q A) Command.Answer S) (stage : List (Event Q A) → S) :
    Prop where
  lead : ∀ started act log, stage (act.leading started ++ log) = k.step (stage log) act
  work : ∀ n (act : Act Q A) log, stage (act.events (some n) ++ log) = stage log

def Script.Allows (k : Script (Command Q A) Command.Answer S) (m : S) : Event Q A → Prop
  | .sent none q => k.asks m (.ask q)
  | .started _ b => ∃ span, k.asks m (.start span b)
  | _ => True

/-- What the foreground sends or hears is allowed where the script asks for it. -/
theorem Script.allows_of_leading {act : Act (Command Q A) Command.Answer} {started : Nat} {e : Event Q A}
    (h : act.leading started = [e]) (hact : act.About (k.asks m)) : k.Allows m e := by
  cases act with
  | write line => nomatch h
  | panic c reason => nomatch h
  | send c =>
    cases c with
    | ask q =>
      cases h
      exact hact
    | start span b => nomatch h
  | hear c a =>
    cases c with
    | ask q =>
      cases h
      trivial
    | start span b =>
      cases a with
      | true =>
        cases h
        exact ⟨span, hact⟩
      | false => nomatch h

/-- Executions are free of the script of the foreground. -/
theorem Script.allows_of_events {act : Act Q A} {n : Nat} {e : Event Q A}
    (h : act.events (some n) = [e]) : k.Allows m e := by
  cases act with
  | send q =>
    cases h
    trivial
  | hear q a =>
    cases h
    trivial
  | _ => nomatch h

namespace Process

variable {w : World σ Q A} {T : Foreground Q A α → Prop} {stage : List (Event Q A) → S}

def Led (k : Script (Command Q A) Command.Answer S) (stage : List (Event Q A) → S)
    (p : Process σ Q A α) : Prop :=
  ∀ f, p.front = some f → f.program.Follows k (stage p.log) fun _ _ => True

/-- A step leaves the foreground on its script. -/
theorem Step.led (hk : k.Tracks stage) (hT : ∀ f, T f → ∀ m, f.Follows k m fun _ _ => True)
    {p p' : Process σ Q A α} (h : Step w T p p') (hp : p.Led k stage) : p'.Led k stage := by
  cases h with
  | trigger h =>
    rintro _ ⟨⟩
    exact hT _ h _
  | rest => exact nofun
  | lead hf he =>
    rintro _ rfl
    rw [hk.lead]
    exact hf.follows (hp _ rfl)
  | work hx hw =>
    rintro f hf
    rw [hk.work]
    exact hp f hf
  | panic hx hw => exact hp
  | complete hx => exact hp
  | abort cut => exact hp
  | restart => exact nofun

theorem Reachable.led (hk : k.Tracks stage) (hT : ∀ f, T f → ∀ m, f.Follows k m fun _ _ => True) {s : σ}
    {p : Process σ Q A α} (h : Reachable w T s p) : p.Led k stage := by
  induction h with
  | refl => exact nofun
  | tail _ hstep ih => exact hstep.led hk hT ih

/-- Each event is one that the script allows at the stage that the log has led to. -/
theorem Step.allows {p p' : Process σ Q A α} (h : Step w T p p') (hp : p.Led k stage) {e : Event Q A}
    (hl : p'.log = e :: p.log) : k.Allows (stage p.log) e := by
  cases h with
  | lead hf he =>
    have hact := List.append_cancel_right (show _ = [e] ++ _ from hl)
    exact Script.allows_of_leading hact (hf.about (hp _ rfl))
  | work hx hw =>
    have hact := List.append_cancel_right (show _ = [e] ++ _ from hl)
    exact Script.allows_of_events hact
  -- other steps leave the log as it is
  | trigger => exact absurd hl List.ne_cons_self
  | rest => exact absurd hl List.ne_cons_self
  | panic => exact absurd hl List.ne_cons_self
  | complete => exact absurd hl List.ne_cons_self
  | abort => exact absurd hl List.ne_cons_self
  | restart => exact absurd hl List.ne_cons_self

/-- Whatever a foreground has sent or started belongs to the stage that the log had led to. -/
theorem Reachable.allows (hk : k.Tracks stage) (hT : ∀ f, T f → ∀ m, f.Follows k m fun _ _ => True)
    {s : σ} {p : Process σ Q A α} (h : Reachable w T s p) {later earlier : List (Event Q A)}
    {e : Event Q A} (hl : p.log = later ++ e :: earlier) : k.Allows (stage earlier) e := by
  obtain ⟨p₀, p₁, h₀, hstep, rfl, hl₁, _⟩ := h.split hl
  exact hstep.allows (h₀.led hk hT) hl₁

end Process

end OracleDuty
