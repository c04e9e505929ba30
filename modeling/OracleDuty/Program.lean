import OracleDuty.Journal
/-!
Programs: courses of action that write lines into a journal and ask the outside world for answers. A
program is data, so that its requests can be answered one at a time, in any order among several programs,
by a world of any kind.

Main statements: programs form a lawful monad, and `serve` keeps sequencing.
-/
namespace OracleDuty

/-- A course of action that ends with an `α`. A request `q` is answered by an `A q`. -/
inductive Program (Q : Type) (A : Q → Type) (α : Type) where
  | done (a : α)
  | note (line : Line) (next : Program Q A α)
  | ask (q : Q) (next : A q → Program Q A α)

namespace Program

variable {Q W : Type} {A : Q → Type} {B : W → Type} {α β γ : Type}

def bind : Program Q A α → (α → Program Q A β) → Program Q A β
  | done a, f => f a
  | note line next, f => note line (next.bind f)
  | ask q next, f => ask q fun a => (next a).bind f

instance : Monad (Program Q A) where
  pure := done
  bind := bind

theorem bind_done (p : Program Q A α) : p.bind done = p := by
  induction p with
  | done a => rfl
  | note line next ih => rw [bind, ih]
  | ask q next ih => rw [bind]; exact congrArg (ask q) (funext ih)

theorem bind_assoc (p : Program Q A α) (f : α → Program Q A β) (g : β → Program Q A γ) :
    (p.bind f).bind g = p.bind fun a => (f a).bind g := by
  induction p with
  | done a => rfl
  | note line next ih => simp only [bind, ih]
  | ask q next ih => simp only [bind, ih]

instance : LawfulMonad (Program Q A) := LawfulMonad.mk' _
  (fun p => bind_done p)
  (fun _ _ => rfl)
  (fun p f g => bind_assoc p f g)

def request (q : Q) : Program Q A (A q) := ask q done

def write (e : Entry) : Program Q A Unit := note ⟨[], e⟩ (done ())

def log (source : Log.Source) (level : Log.Level) (message : String)
    (fields : List (String × Log.Value)) : Program Q A Unit :=
  write (.event (Log.event source level message fields))

def within (span : Log.SpanFields) : Program Q A α → Program Q A α
  | done a => done a
  | note line next => note (line.within span) (next.within span)
  | ask q next => ask q fun a => (next a).within span

def serve (f : (q : Q) → Program W B (A q)) : Program Q A α → Program W B α
  | done a => done a
  | note line next => note line (next.serve f)
  | ask q next => (f q).bind fun a => (next a).serve f

/-- Serving the requests of a sequence serves its parts. -/
theorem serve_bind (f : (q : Q) → Program W B (A q)) (p : Program Q A α) (g : α → Program Q A β) :
    (p.bind g).serve f = (p.serve f).bind fun a => (g a).serve f := by
  induction p with
  | done a => rfl
  | note line next ih => simp only [bind, serve, ih]
  | ask q next ih => simp only [bind, serve, ih, bind_assoc]

end Program

/-- What comes of a request: an answer, or the end of the program that asked. -/
inductive Reply (α : Type) where
  | answer (a : α)
  /-- The program is cut short, with a reason when one can be told. -/
  | panic (reason : Option String)

/-- An outside world with a state `σ`. -/
structure World (σ : Type) (Q : Type) (A : Q → Type) where
  /-- Keeps a line of the journal. -/
  write : Line → σ → σ
  /-- Takes a request, and says whether it is answered at once or held back. -/
  accept : Q → σ → Bool × σ
  /-- Answers a request that was taken. -/
  answer : (q : Q) → σ → Reply (A q) × σ

/-- Where a program stands when it can go no further by itself. -/
inductive Stage (Q : Type) (A : Q → Type) (α : Type) where
  | finished (a : α)
  | panicked (reason : Option String)
  /-- The answer to `q` is held back. -/
  | held (q : Q) (next : A q → Program Q A α)

def Stage.result? {Q : Type} {A : Q → Type} {α : Type} : Stage Q A α → Option α
  | finished a => some a
  | _ => none

namespace Program

variable {σ Q : Type} {A : Q → Type} {α : Type}

def advance (w : World σ Q A) : Program Q A α → σ → Stage Q A α × σ
  | done a, s => (.finished a, s)
  | note line next, s => next.advance w (w.write line s)
  | ask q next, s =>
    match w.accept q s with
    | (false, s) => (.held q next, s)
    | (true, s) =>
      match w.answer q s with
      | (.panic reason, s) => (.panicked reason, s)
      | (.answer a, s) => (next a).advance w s

def run (w : World σ Q A) (p : Program Q A α) (s : σ) : Option α × σ :=
  let (stage, s) := p.advance w s
  (stage.result?, s)

end Program

def Stage.release {σ Q : Type} {A : Q → Type} {α : Type} (w : World σ Q A) :
    Stage Q A α → σ → Stage Q A α × σ
  | finished a, s => (.finished a, s)
  | panicked reason, s => (.panicked reason, s)
  | held q next, s =>
    match w.answer q s with
    | (.panic reason, s) => (.panicked reason, s)
    | (.answer a, s) => (next a).advance w s

end OracleDuty
