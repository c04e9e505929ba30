import OracleDuty.Lane
/-!
Background executions under way. A course of foreground commands may start work in a lane; the work then
goes on by itself until it ends or an answer is held back.
-/
namespace OracleDuty

structure Background (Q : Type) (A : Q → Type) where
  lane : String
  work : ExceptT Report (Program Q A) Unit

def Background.serve {Q W : Type} {A : Q → Type} {B : W → Type} (f : (q : Q) → Program W B (A q))
    (b : Background Q A) : Background W B := ⟨b.lane, ExceptT.mk (b.work.run.serve f)⟩

inductive Command (Q : Type) (A : Q → Type) where
  | ask (q : Q)
  | start (span : Log.SpanFields) (background : Background Q A)

abbrev Command.Answer {Q : Type} {A : Q → Type} : Command Q A → Type
  | .ask q => A q
  | .start .. => Bool

abbrev Foreground (Q : Type) (A : Q → Type) (α : Type) :=
  Program (Command Q A) Command.Answer α

inductive Progress (Q : Type) (A : Q → Type) (α : Type) where
  | ready (work : Program Q A α)
  | held (q : Q) (next : A q → Program Q A α)

structure Execution (Q : Type) (A : Q → Type) where
  number : Nat
  lane : String
  span : Log.SpanFields
  progress : Progress Q A (Except Report Unit)

/-- The executions under way, over a world with state `σ`. -/
structure Engine (σ : Type) (Q : Type) (A : Q → Type) where
  lanes : Lanes
  executions : List (Execution Q A)
  started : Nat
  world : σ

namespace Engine

variable {σ Q : Type} {A : Q → Type} {α : Type}

def idle (world : σ) : Engine σ Q A := ⟨.empty, [], 0, world⟩

def start (e : Engine σ Q A) (span : Log.SpanFields) (b : Background Q A) : Bool × Engine σ Q A :=
  match e.lanes.take b.lane with
  | (false, _) => (false, e)
  | (true, lanes) =>
    let x : Execution Q A := ⟨e.started, b.lane, span, .ready (b.work.run.within span)⟩
    (true, { e with lanes, executions := e.executions ++ [x], started := e.started + 1 })

def foreground (w : World σ Q A) : World (Engine σ Q A) (Command Q A) Command.Answer where
  write line e := { e with world := w.write line e.world }
  accept
    | .ask q, e =>
      let (now, world) := w.accept q e.world
      (now, { e with world })
    | .start .., e => (true, e)
  answer
    | .ask q, e =>
      let (reply, world) := w.answer q e.world
      (reply, { e with world })
    | .start span b, e =>
      let (accepted, e) := e.start span b
      (.answer accepted, e)

def write (w : World σ Q A) (span : Log.SpanFields) (entries : List Entry) (e : Engine σ Q A) :
    Engine σ Q A :=
  { e with world := entries.foldl (fun s entry => w.write ⟨[span], entry⟩ s) e.world }

def finish (w : World σ Q A) (x : Execution Q A) (outcome : Outcome) (e : Engine σ Q A) :
    Engine σ Q A :=
  { write w x.span (Lane.endEntries x.lane outcome) e with lanes := e.lanes.free x.lane }

def settle (w : World σ Q A) (x : Execution Q A) :
    Stage Q A (Except Report Unit) × σ → Engine σ Q A → Engine σ Q A
  | (.held q next, world), e =>
    { e with world, executions := e.executions ++ [{ x with progress := .held q next }] }
  | (.finished result, world), e => finish w x (.completed result) { e with world }
  | (.panicked reason, world), e => finish w x (.panicked reason) { e with world }

/-- Takes one execution further; `released` says whether a held answer may go. -/
def proceed (w : World σ Q A) (released : Execution Q A → Bool) (e : Engine σ Q A)
    (x : Execution Q A) : Engine σ Q A :=
  match x.progress with
  | .ready work => settle w x (work.advance w e.world) e
  | .held q next =>
    if released x then settle w x ((Stage.held q next).release w e.world) e
    else { e with executions := e.executions ++ [x] }

def proceedAll (w : World σ Q A) (released : Execution Q A → Bool) (e : Engine σ Q A) :
    Engine σ Q A :=
  e.executions.foldl (proceed w released) { e with executions := [] }

/-- Drops executions that are cut off. Their lanes stay taken. -/
def abort (cut : Execution Q A → Bool) (e : Engine σ Q A) : Engine σ Q A :=
  { e with executions := e.executions.filter fun x => !cut x }

end Engine

end OracleDuty
