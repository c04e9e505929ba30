import OracleDuty.Proofs.Duty.Action
import OracleDuty.Store
/-!
The steps in which a file of the store is written.

Main statement: `writeAtomic_guides`, by which each request is the one of its step.
-/
namespace OracleDuty.Store

open Duty

variable {s : Store} {path : Path} {content : Bytes}

inductive Step where
  | creating
  | writing
  | placing
  | placed
  | refused

def Step.request? (s : Store) (path : Path) (content : Bytes) : Step → Option Request
  | creating => some (.disk (.createDirectories s.directory))
  | writing => some (.disk (.write (temporaryPath path) content))
  | placing => some (.disk (.rename (temporaryPath path) path))
  | _ => none

def Step.next : Step → (q : Request) → Answer q → Step
  | creating, .disk (.createDirectories _), .ok _ => writing
  | writing, .disk (.write _ _), .ok _ => placing
  | placing, .disk (.rename _ _), .ok _ => placed
  | _, _, _ => refused

def writing (s : Store) (path : Path) (content : Bytes) : Script Request Answer Step where
  asks m q := m.request? s path content = some q
  next := Step.next

/-- One use of the disk takes the script on as its answer says. -/
theorem guides_perform {S : Type} {k : Script Request Answer S} {m : S} {bad : S → Prop}
    {operation : Operation} {reported : Path} {q : Disk.Request} {post : S → q.Result → Prop}
    (hq : k.asks m (.disk q)) (hok : ∀ x, post (k.next m (.disk q) (.ok x)) x)
    (hfail : ∀ fault, bad (k.next m (.disk q) (.error fault))) :
    k.Guides m (perform operation reported q) bad post := by
  unfold perform
  rw [guides_withCause]
  refine ⟨hq, ?_⟩
  rintro (fault | x)
  · exact hfail fault
  · exact hok x

/-- A content is put in its place by the three steps of the script. -/
theorem writeAtomic_guides (s : Store) (path : Path) (content : Bytes) :
    (s.writing path content).Guides .creating (s.writeAtomic path content) (· = .refused)
      fun m _ => m = .placed := by
  unfold writeAtomic
  rw [guides_bind]
  refine guides_perform rfl (fun _ => ?_) fun _ => rfl
  rw [guides_bind]
  refine guides_perform rfl (fun _ => ?_) fun _ => rfl
  exact guides_perform rfl (fun _ => rfl) fun _ => rfl

end OracleDuty.Store
