import OracleDuty.Proofs.Disk.Confined
import OracleDuty.Proofs.Duty.Action
/-!
What a course leaves on a disk, wherever it stands or is cut off, when its requests to the disk are carried
out where they succeed and done in part, or not at all, where they fail.

Main statements: `Serves.invariant` carries a fact about stages and disks along a course that follows a
script, and `Remains.cases` carries it to where the course is cut off.
-/
namespace OracleDuty.Disk

open Duty

/-- What is on a disk after a request that has failed: nothing was done, or a file is written in part, or a
directory lacks its last names. A file is moved in one step, so that a move that failed did nothing. -/
inductive Refuses (d : Disk) : Request → Disk → Prop where
  | untouched (q : Request) : Refuses d q d
  | partWritten {p : Path} {content kept : Bytes} (h : kept <+: content) :
    Refuses d (.write p content) (d.perform (.write p kept)).2
  | partCreated {p : Path} {parents : List String} (h : parents <:+ p.names.reverse) :
    Refuses d (.createDirectories p) (d.createDirectories p.isAbsolute parents).1

inductive Answers (d : Disk) : Exchange Duty.Request Answer → Disk → Prop where
  | carriedOut {q : Request} {x : q.Result} {d' : Disk} (h : d.perform q = (.ok x, d')) :
    Answers d ⟨.disk q, .ok x⟩ d'
  | refused {q : Request} {fault : Fault} {d' : Disk} (h : d.Refuses q d') :
    Answers d ⟨.disk q, .error fault⟩ d'
  | aside {q : Duty.Request} {a : Answer q} (h : ∀ r, q ≠ .disk r) : Answers d ⟨q, a⟩ d

inductive Serves : Disk → List (Exchange Duty.Request Answer) → Disk → Prop where
  | nil (d : Disk) : Serves d [] d
  | cons {d d' d'' : Disk} {e : Exchange Duty.Request Answer} {t : List (Exchange Duty.Request Answer)}
    (h : d.Answers e d') (rest : Serves d' t d'') : Serves d (e :: t) d''

/-- What may be on the disk where a course has come to after some exchanges: it may stand there, or may have
been cut off while a request to the disk was under way. -/
inductive Remains {α : Type} (d : Disk) (t : List (Exchange Duty.Request Answer)) :
    Course α → Disk → Prop where
  | standing {p : Course α} {d' : Disk} (h : d.Serves t d') : Remains d t p d'
  | during {q : Request} {next : Except Fault q.Result → Course α} {d' d'' : Disk} (h : d.Serves t d')
    (hq : d'.Leaves q d'') : Remains d t (.ask (.disk q) next) d''

variable {d d' : Disk}

theorem Refuses.leaves {q : Request} (h : d.Refuses q d') : d.Leaves q d' := by
  cases h with
  | untouched => exact .untouched q
  | partWritten h => exact .partWritten h
  | partCreated h => exact .partCreated h

theorem Refuses.rename {source target : Path} (h : d.Refuses (.rename source target) d') : d' = d := by
  cases h
  rfl

/-- Whether or not a request to the disk succeeds, it leaves the disk as such a request can. -/
theorem Answers.leaves {q : Request} {a : Except Fault q.Result} (h : d.Answers ⟨.disk q, a⟩ d') :
    d.Leaves q d' := by
  cases h with
  | carriedOut h =>
    rw [show d' = (d.perform q).2 by rw [h]]
    exact .carriedOut q
  | refused h => exact h.leaves
  | aside h => exact absurd rfl (h q)

/-- At its end no request of a course is under way. -/
theorem Remains.serves_of_done {α : Type} {a : α} {t : List (Exchange Duty.Request Answer)}
    (h : d.Remains t (.done a) d') : d.Serves t d' := by
  cases h with
  | standing h => exact h

section Invariant

variable {α S : Type} {k : Script Duty.Request Answer S} {p r : Course α} {m : S}
  {post : S → α → Prop} {t : List (Exchange Duty.Request Answer)} {P : S → Disk → Prop}

/-- What holds at first, and is kept by each exchange of the script, holds wherever a course stands that
follows the script. -/
theorem Serves.invariant (honest : Exchange Duty.Request Answer → Prop) (hd : d.Serves t d')
    (hf : p.Follows k m post) (ht : p.Path t r) (hh : ∀ e ∈ t, honest e) (h0 : P m d)
    (hstep : ∀ {m q} {a : Answer q} {d d'}, k.asks m q → honest ⟨q, a⟩ → d.Answers ⟨q, a⟩ d' → P m d →
      P (k.next m q a) d') : P (k.after m t) d' := by
  induction ht generalizing m d with
  | refl p =>
    cases hd
    exact h0
  | note _ ih => exact ih hd hf hh h0
  | ask _ ih =>
    obtain ⟨he, hh⟩ := List.forall_mem_cons.mp hh
    cases hd with
    | cons h rest => exact ih rest (hf.2 _) hh (hstep hf.1 he h h0)

/-- Where the course is cut off, the request that is under way is the one of its stage. -/
theorem Remains.cases (hd : d.Remains t r d') (hf : p.Follows k m post) (ht : p.Path t r) :
    d.Serves t d' ∨ ∃ q d₁, d.Serves t d₁ ∧ k.asks (k.after m t) (.disk q) ∧ d₁.Leaves q d' := by
  cases hd with
  | standing h => exact .inl h
  | during h hq => exact .inr ⟨_, _, h, (hf.path ht).1, hq⟩

end Invariant

end OracleDuty.Disk
