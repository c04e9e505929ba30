import OracleDuty.Background
import OracleDuty.Proofs.Path
/-!
Scripts: what a program may ask at each stage, and the stage that an answer leads to. A program that
follows a script asks on every path only what the script has at the stage that the path has led to.

Main statements: `follows_bind` and `guides_bind` carry a script through sequences, and `Follows.asks_iff`
reads all requests of a program off its script.
-/
namespace OracleDuty

/-- Stages with the requests that belong to them, and the stage after an answer. -/
structure Script (Q : Type) (A : Q → Type) (S : Type) where
  asks : S → Q → Prop
  next : S → (q : Q) → A q → S

namespace Script

variable {Q S : Type} {A : Q → Type}

def after (k : Script Q A S) (m : S) (t : List (Exchange Q A)) : S :=
  t.foldl (fun m e => k.next m e.request e.answer) m

def Admits (k : Script Q A S) (m : S) : List (Exchange Q A) → Q → Prop
  | [], q => k.asks m q
  | e :: t, q => k.asks m e.request ∧ k.Admits (k.next m e.request e.answer) t q

theorem Admits.asks {k : Script Q A S} {m : S} {t : List (Exchange Q A)} {q : Q}
    (h : k.Admits m t q) : k.asks (k.after m t) q := by
  induction t generalizing m with
  | nil => exact h
  | cons e t ih => exact ih h.2

/-- What is admitted after requests that were, is what is admitted from the stage that they lead to. -/
theorem Admits.append_iff {k : Script Q A S} {m : S} {t u : List (Exchange Q A)} {q q' : Q}
    (h : k.Admits m t q) : k.Admits m (t ++ u) q' ↔ k.Admits (k.after m t) u q' := by
  induction t generalizing m with
  | nil => rfl
  | cons e t ih => exact (and_iff_right h.1).trans (ih h.2)

/-- What holds at first, and is kept by each answer to what is asked, holds after all that is admitted. -/
theorem Admits.invariant {k : Script Q A S} {m : S} {t : List (Exchange Q A)} {q : Q}
    {P : List (Exchange Q A) → S → Prop} (h : k.Admits m t q) (h0 : P [] m)
    (hstep : ∀ u m q a, P u m → k.asks m q → P (u ++ [⟨q, a⟩]) (k.next m q a)) :
    P t (k.after m t) := by
  -- for any exchanges `u` before, by induction on those that follow
  suffices ∀ u, P u m → P (u ++ t) (k.after m t) from this [] h0
  clear h0
  induction t generalizing m with
  | nil =>
    intro u hu
    rw [List.append_nil]
    exact hu
  | cons e t ih =>
    intro u hu
    have hnext := ih h.2 _ (hstep u m e.request e.answer hu h.1)
    rw [List.append_assoc] at hnext
    exact hnext

/-- Scripts that agree on the stages that can be reached admit the same. -/
theorem admits_congr {k k' : Script Q A S} (reached : S → Prop)
    (hasks : ∀ m q, reached m → (k.asks m q ↔ k'.asks m q))
    (hnext : ∀ m q a, reached m → k.asks m q → k.next m q a = k'.next m q a ∧ reached (k.next m q a))
    {m : S} (hm : reached m) (t : List (Exchange Q A)) (q : Q) : k.Admits m t q ↔ k'.Admits m t q := by
  induction t generalizing m with
  | nil => exact hasks m q hm
  | cons e t ih =>
    constructor
    · intro h
      obtain ⟨he, hr⟩ := hnext m e.request e.answer hm h.1
      refine ⟨(hasks _ _ hm).mp h.1, ?_⟩
      rw [← he]
      exact (ih hr).mp h.2
    · intro h
      have ha := (hasks _ _ hm).mpr h.1
      obtain ⟨he, hr⟩ := hnext m e.request e.answer hm ha
      refine ⟨ha, (ih hr).mpr ?_⟩
      rw [he]
      exact h.2

/-- The script of all programs; its stages are the exchanges so far. -/
def history : Script Q A (List (Exchange Q A)) where
  asks _ _ := True
  next t q a := t ++ [⟨q, a⟩]

theorem after_history (t u : List (Exchange Q A)) :
    (history : Script Q A (List (Exchange Q A))).after t u = t ++ u := by
  induction u generalizing t with
  | nil => exact (List.append_nil t).symm
  | cons e u ih => exact (ih _).trans (List.append_assoc ..)

def only (kind : Q → Prop) : Script Q A Unit where
  asks _ q := kind q
  next _ _ _ := ()

def once (q : Q) : Script Q A Bool where
  asks asked q' := asked = false ∧ q' = q
  next _ _ _ := true

def Quiet (k : Script Q A S) (m : S) : Prop := ∀ q, ¬ k.asks m q

end Script

namespace Program

variable {Q S S' : Type} {A : Q → Type} {α β : Type}

/-- From the stage `m` on, the program asks what the script has, and ends as `post` says of the last stage
and the result. -/
def Follows (k : Script Q A S) : Program Q A α → S → (S → α → Prop) → Prop
  | done a, m, post => post m a
  | note _ p, m, post => p.Follows k m post
  | ask q next, m, post => k.asks m q ∧ ∀ a, (next a).Follows k (k.next m q a) post

variable {k : Script Q A S}

theorem follows_done {a : α} {m : S} {post : S → α → Prop} :
    (done a : Program Q A α).Follows k m post ↔ post m a := Iff.rfl

theorem follows_bind {p : Program Q A α} {f : α → Program Q A β} {m : S} {post : S → β → Prop} :
    (p.bind f).Follows k m post ↔ p.Follows k m fun m a => (f a).Follows k m post := by
  induction p generalizing m with
  | done a => rfl
  | note line p ih => exact ih
  | ask q next ih => exact and_congr_right fun _ => forall_congr' fun a => ih a

theorem Follows.mono {p : Program Q A α} {m : S} {post post' : S → α → Prop}
    (h : p.Follows k m post) (hp : ∀ m a, post m a → post' m a) : p.Follows k m post' := by
  induction p generalizing m with
  | done a => exact hp _ _ h
  | note line p ih => exact ih h
  | ask q next ih => exact ⟨h.1, fun a => ih a (h.2 a)⟩

theorem follows_within {span : Log.SpanFields} {p : Program Q A α} {m : S} {post : S → α → Prop} :
    (p.within span).Follows k m post ↔ p.Follows k m post := by
  induction p generalizing m with
  | done a => rfl
  | note line p ih => exact ih
  | ask q next ih => exact and_congr_right fun _ => forall_congr' fun a => ih a

/-- A program that follows a script follows another one whose stages play the same part. -/
theorem Follows.map {k' : Script Q A S'} {f : S → S'} {p : Program Q A α} {m : S}
    {post : S → α → Prop} (h : p.Follows k m post) (ha : ∀ m q, k.asks m q → k'.asks (f m) q)
    (hn : ∀ m q a, k.asks m q → k'.next (f m) q a = f (k.next m q a)) :
    p.Follows k' (f m) fun m' a => ∃ m, m' = f m ∧ post m a := by
  induction p generalizing m with
  | done a => exact ⟨m, rfl, h⟩
  | note line p ih => exact ih h
  | ask q next ih =>
    refine ⟨ha m q h.1, fun a => ?_⟩
    rw [hn m q a h.1]
    exact ih a (h.2 a)

theorem Follows.path {p r : Program Q A α} {m : S} {post : S → α → Prop} {t : List (Exchange Q A)}
    (h : p.Follows k m post) (ht : p.Path t r) : r.Follows k (k.after m t) post := by
  induction ht generalizing m with
  | refl p => exact h
  | note _ ih => exact ih h
  | ask _ ih => exact ih (h.2 _)

/-- What is asked on the way, and at the end of it, is what the script has. -/
theorem Follows.admits {p : Program Q A α} {m : S} {post : S → α → Prop} {t : List (Exchange Q A)}
    {q : Q} {next : A q → Program Q A α} (h : p.Follows k m post) (ht : p.Path t (ask q next)) :
    k.Admits m t q := by
  generalize hr : ask q next = r at ht
  induction ht generalizing m with
  | refl p =>
    subst hr
    exact h.1
  | note _ ih => exact ih h hr
  | ask _ ih => exact ⟨h.1, ih (h.2 _) hr⟩

theorem Follows.asks {p : Program Q A α} {m : S} {post : S → α → Prop} {t : List (Exchange Q A)}
    {q : Q} (h : p.Follows k m post) (ht : p.Asks t q) : k.asks (k.after m t) q := by
  obtain ⟨next, ht⟩ := ht
  exact (h.path ht).1

/-- A program that ends only at quiet stages and whose stages have one request each asks all that its
script has, and nothing else. -/
theorem Follows.asks_iff {p : Program Q A α} {m : S} {t : List (Exchange Q A)} {q : Q}
    (h : p.Follows k m fun m _ => k.Quiet m)
    (hone : ∀ m q q', k.asks m q → k.asks m q' → q = q') : p.Asks t q ↔ k.Admits m t q := by
  constructor
  · rintro ⟨next, ht⟩
    exact h.admits ht
  · -- by induction on the program, which asks the one request that its stage has
    intro ht
    induction p generalizing m t with
    | done a =>
      cases t with
      | nil => exact absurd ht (h q)
      | cons e t => exact absurd ht.1 (h e.request)
    | note line p ih =>
      obtain ⟨next, hp⟩ := ih h ht
      exact ⟨next, .note hp⟩
    | ask q' next ih =>
      cases t with
      | nil =>
        cases hone _ _ _ h.1 ht
        exact ⟨next, .refl _⟩
      | cons e t =>
        obtain ⟨q'', a⟩ := e
        cases hone _ _ _ h.1 ht.1
        obtain ⟨next', hp⟩ := ih a (h.2 a) ht.2
        exact ⟨next', .ask hp⟩

/-- A program that ends has come to its end on some path. -/
theorem Follows.reaches {p : Program Q A α} {m : S} {post : S → α → Prop} (h : p.Follows k m post) :
    p.Follows k m fun m a => post m a ∧ ∃ t, p.Ends t a := by
  induction p generalizing m with
  | done a => exact ⟨h, [], .refl _⟩
  | note line p ih =>
    refine Follows.mono (ih h) ?_
    rintro m a ⟨hpost, t, ht⟩
    exact ⟨hpost, t, .note ht⟩
  | ask q next ih =>
    refine ⟨h.1, fun a => Follows.mono (ih a (h.2 a)) ?_⟩
    rintro m b ⟨hpost, t, ht⟩
    exact ⟨hpost, _, .ask ht⟩

/-- At a quiet stage nothing is left but the end. -/
theorem Follows.ends_of_quiet {p : Program Q A α} {m : S} {post : S → α → Prop}
    (h : p.Follows k m post) (hq : k.Quiet m) : ∃ a, p.Ends [] a := by
  induction p with
  | done a => exact ⟨a, .refl _⟩
  | note line p ih =>
    obtain ⟨a, ha⟩ := ih h
    exact ⟨a, .note ha⟩
  | ask q next ih => exact absurd h.1 (hq q)

/-- A program follows the script of what it asks. -/
theorem follows_only {kind : Q → Prop} {p : Program Q A α} (h : ∀ t q, p.Asks t q → kind q) :
    p.Follows (Script.only kind) () fun _ a => ∃ t, p.Ends t a := by
  have hasks : p.Follows (Script.only kind) () fun _ _ => True := by
    induction p with
    | done a => trivial
    | note line p ih =>
      apply ih
      rintro t q ⟨next, ht⟩
      exact h t q ⟨next, .note ht⟩
    | ask q next ih =>
      refine ⟨h [] q ⟨next, .refl _⟩, fun a => ih a ?_⟩
      rintro t q' ⟨next', ht⟩
      exact h _ q' ⟨next', .ask ht⟩
  exact hasks.reaches.mono fun _ _ hends => hends.2

/-- What is asked on a path is of a kind that all requests of the script are of. -/
theorem Follows.kind_of_asks {kind : Q → Prop} {p r : Program Q A α} {t : List (Exchange Q A)} {m : S}
    {post : S → α → Prop} (h : p.Follows k m post) (hk : ∀ m q, k.asks m q → kind q) (ht : p.Path t r) :
    ∀ e ∈ t, kind e.request := by
  induction ht generalizing m with
  | refl p => exact List.forall_mem_nil _
  | note _ ih => exact ih h
  | ask _ ih => exact List.forall_mem_cons.mpr ⟨hk _ _ h.1, ih (h.2 _)⟩

/-- What is asked on a path is of the kind. -/
theorem Follows.kind_of_path {kind : Q → Prop} {p r : Program Q A α} {t : List (Exchange Q A)}
    {post : Unit → α → Prop} (h : p.Follows (Script.only kind) () post) (ht : p.Path t r) :
    ∀ e ∈ t, kind e.request :=
  h.kind_of_asks (fun _ _ hq => hq) ht

/-- A program that asks requests of a kind stays at a stage that these belong to and do not change. -/
theorem Follows.stay {kind : Q → Prop} {p : Program Q A α} {m : S} {post : α → Prop}
    (h : p.Follows (Script.only kind) () fun _ a => post a)
    (hkind : ∀ q, kind q → k.asks m q ∧ ∀ a, k.next m q a = m) :
    p.Follows k m fun m' a => m' = m ∧ post a := by
  have hasks : ∀ (u : Unit) q, (Script.only kind : Script Q A Unit).asks u q → k.asks m q :=
    fun _ q hq => (hkind q hq).1
  refine (h.map (f := fun _ => m) hasks fun _ q a hq => (hkind q hq).2 a).mono ?_
  rintro _ a ⟨_, rfl, ha⟩
  exact ⟨rfl, ha⟩

/-- A program with one request asks it first, and nothing else. -/
theorem Follows.asks_once {p : Program Q A α} {t : List (Exchange Q A)} {q q' : Q}
    {post : Bool → α → Prop} (h : p.Follows (Script.once q) false post) (ht : p.Asks t q') :
    t = [] ∧ q' = q := by
  obtain ⟨next, ht⟩ := ht
  have hadmits := h.admits ht
  cases t with
  | nil => exact ⟨rfl, hadmits.2⟩
  | cons e t =>
    -- a second request would follow the first one
    have hsecond : ∀ u, ¬(Script.once q : Script Q A Bool).Admits true u q' := by
      intro u hu
      cases u with
      | nil => cases hu.1
      | cons e u => cases hu.1.1
    exact absurd hadmits.2 (hsecond t)

/-- What is shown of a program along with the exchanges so far holds of every way to its end. -/
theorem Follows.ends {p : Program Q A α} {post : List (Exchange Q A) → α → Prop}
    {t : List (Exchange Q A)} {a : α} (h : p.Follows Script.history [] post) (ht : p.Ends t a) :
    post t a := by
  have hpath := h.path ht
  rw [Script.after_history] at hpath
  exact hpath

end Program

/-! ### Programs that may fail -/

section Failing

variable {Q S : Type} {A : Q → Type} {α β ε δ : Type} {k : Script Q A S} {m : S}
  {bad : S → Prop}

open Program

/-- From the stage `m` on, the action follows the script; it fails at a stage of `bad` only, and succeeds
as `post` says. -/
def Script.Guides (k : Script Q A S) (m : S) (x : ExceptT ε (Program Q A) α) (bad : S → Prop)
    (post : S → α → Prop) : Prop :=
  x.run.Follows k m fun m r =>
    match r with
    | .ok a => post m a
    | .error _ => bad m

theorem guides_bind {x : ExceptT ε (Program Q A) α} {f : α → ExceptT ε (Program Q A) β}
    {post : S → β → Prop} :
    k.Guides m (x >>= f) bad post ↔ k.Guides m x bad fun m a => k.Guides m (f a) bad post := by
  unfold Script.Guides
  rw [run_bind, follows_bind]
  -- a failure of the first part ends the sequence
  refine iff_of_eq (congrArg _ (funext fun m => funext fun r => ?_))
  cases r <;> rfl

@[simp] theorem guides_pure {a : α} {post : S → α → Prop} :
    k.Guides m (pure a : ExceptT ε (Program Q A) α) bad post ↔ post m a := Iff.rfl

theorem guides_lift {p : Program Q A α} {post : S → α → Prop} :
    k.Guides m (ExceptT.lift p : ExceptT ε (Program Q A) α) bad post ↔ p.Follows k m post := by
  unfold Script.Guides
  rw [run_lift, follows_bind]
  rfl

theorem guides_adapt {f : ε → δ} {x : ExceptT ε (Program Q A) α} {post : S → α → Prop} :
    k.Guides m (ExceptT.adapt f x) bad post ↔ k.Guides m x bad post := by
  unfold Script.Guides
  rw [run_adapt, follows_bind]
  refine iff_of_eq (congrArg _ (funext fun m => funext fun r => ?_))
  cases r <;> rfl

theorem Script.Guides.mono {x : ExceptT ε (Program Q A) α} {bad' : S → Prop} {post post' : S → α → Prop}
    (h : k.Guides m x bad post) (hb : ∀ m, bad m → bad' m) (hp : ∀ m a, post m a → post' m a) :
    k.Guides m x bad' post' := by
  refine Follows.mono h fun m r hr => ?_
  cases r with
  | ok a => exact hp _ _ hr
  | error e => exact hb _ hr

end Failing

end OracleDuty
