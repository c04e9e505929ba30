import OracleDuty.Program
/-!
Paths through programs: the requests that are made one after the other, each with the answer it gets, and
where the program stands after them.

Main statements: `ends_bind`, `asks_bind` and `ends_run_bind` say what a sequence asks by what its parts ask.
-/
namespace OracleDuty

/-- A request with its answer. -/
structure Exchange (Q : Type) (A : Q → Type) where
  request : Q
  answer : A request

namespace Program

variable {Q : Type} {A : Q → Type} {α β ε : Type}

/-- `p` comes to `r` when its requests are answered as in `t`. -/
inductive Path : Program Q A α → List (Exchange Q A) → Program Q A α → Prop where
  | refl (p : Program Q A α) : Path p [] p
  | note {line : Line} {p r : Program Q A α} {t : List (Exchange Q A)} (h : Path p t r) :
    Path (note line p) t r
  | ask {q : Q} {next : A q → Program Q A α} {a : A q} {r : Program Q A α}
      {t : List (Exchange Q A)} (h : Path (next a) t r) :
    Path (ask q next) (⟨q, a⟩ :: t) r

/-- `p` ends with `b` when its requests are answered as in `t`. -/
def Ends (p : Program Q A α) (t : List (Exchange Q A)) (b : α) : Prop := p.Path t (done b)

/-- `p` asks `q` after its requests were answered as in `t`. -/
def Asks (p : Program Q A α) (t : List (Exchange Q A)) (q : Q) : Prop :=
  ∃ next, p.Path t (ask q next)

theorem Path.trans {p q r : Program Q A α} {t u : List (Exchange Q A)} (h : p.Path t q)
    (k : q.Path u r) : p.Path (t ++ u) r := by
  induction h with
  | refl p => exact k
  | note _ ih => exact .note (ih k)
  | ask _ ih => exact .ask (ih k)

/-- A path can be taken up to any point and from there on. -/
theorem Path.split {p r : Program Q A α} {t u : List (Exchange Q A)} (h : p.Path (t ++ u) r) :
    ∃ m, p.Path t m ∧ m.Path u r := by
  induction p generalizing t with
  | done a =>
    have hnil : t = [] := by
      cases t with
      | nil => rfl
      | cons e t => cases h
    subst hnil
    exact ⟨_, .refl _, h⟩
  | note line p ih =>
    cases t with
    | nil => exact ⟨_, .refl _, h⟩
    | cons e t =>
      cases h with
      | note h =>
        obtain ⟨m, ht, hu⟩ := ih h
        exact ⟨m, .note ht, hu⟩
  | ask q next ih =>
    cases t with
    | nil => exact ⟨_, .refl _, h⟩
    | cons e t =>
      cases h with
      | ask h =>
        obtain ⟨m, ht, hu⟩ := ih _ h
        exact ⟨m, .ask ht, hu⟩

/-- What is asked first on the rest of a path, and how it goes on from there. -/
theorem Path.first {p r : Program Q A α} {e : Exchange Q A} {t u : List (Exchange Q A)}
    (h : p.Path (t ++ e :: u) r) :
    ∃ next, p.Path t (.ask e.request next) ∧ (next e.answer).Path u r := by
  obtain ⟨m, ht, hm⟩ := h.split
  clear h
  induction m with
  | done a => cases hm
  | note line m ih =>
    cases hm with
    | note hm =>
      have hstep := ht.trans (.note (.refl m))
      rw [List.append_nil] at hstep
      exact ih hstep hm
  | ask q next _ =>
    cases hm with
    | ask hm => exact ⟨next, ht, hm⟩

theorem Asks.answered {p : Program Q A α} {t : List (Exchange Q A)} {q : Q} (h : p.Asks t q) (a : A q) :
    ∃ r, p.Path (t ++ [⟨q, a⟩]) r := by
  obtain ⟨next, h⟩ := h
  exact ⟨_, h.trans (.ask (.refl (next a)))⟩

theorem Path.bind {p r : Program Q A α} {t : List (Exchange Q A)} (h : p.Path t r)
    (f : α → Program Q A β) : (p.bind f).Path t (r.bind f) := by
  induction h with
  | refl p => exact .refl _
  | note _ ih => exact .note ih
  | ask _ ih => exact .ask ih

/-- A path through a sequence stays in the first part, or goes on into the second. -/
theorem path_bind {p : Program Q A α} {f : α → Program Q A β} {t : List (Exchange Q A)}
    {r : Program Q A β} (h : (p.bind f).Path t r) :
    (∃ p', p.Path t p' ∧ r = p'.bind f) ∨
      ∃ a u v, t = u ++ v ∧ p.Ends u a ∧ (f a).Path v r := by
  induction p generalizing t with
  | done a => exact .inr ⟨a, [], t, rfl, .refl _, h⟩
  | note line next ih =>
    cases h with
    | refl => exact .inl ⟨_, .refl _, rfl⟩
    | note h =>
      rcases ih h with ⟨p', hp, rfl⟩ | ⟨a, u, v, rfl, hu, hv⟩
      · exact .inl ⟨p', .note hp, rfl⟩
      · exact .inr ⟨a, u, v, rfl, .note hu, hv⟩
  | ask q next ih =>
    cases h with
    | refl => exact .inl ⟨_, .refl _, rfl⟩
    | @ask _ _ b _ _ h =>
      rcases ih b h with ⟨p', hp, rfl⟩ | ⟨a, u, v, rfl, hu, hv⟩
      · exact .inl ⟨p', .ask hp, rfl⟩
      · exact .inr ⟨a, ⟨q, b⟩ :: u, v, rfl, .ask hu, hv⟩

@[simp] theorem ends_done {t : List (Exchange Q A)} {a b : α} :
    (done a : Program Q A α).Ends t b ↔ t = [] ∧ a = b := by
  constructor
  · intro h
    cases h
    exact ⟨rfl, rfl⟩
  · rintro ⟨rfl, rfl⟩
    exact .refl _

@[simp] theorem ends_note {line : Line} {p : Program Q A α} {t : List (Exchange Q A)} {b : α} :
    (note line p).Ends t b ↔ p.Ends t b := by
  constructor
  · intro h
    cases h
    assumption
  · exact .note

@[simp] theorem ends_ask {q : Q} {next : A q → Program Q A α} {t : List (Exchange Q A)} {b : α} :
    (ask q next).Ends t b ↔ ∃ a u, t = ⟨q, a⟩ :: u ∧ (next a).Ends u b := by
  constructor
  · intro h
    cases h
    exact ⟨_, _, rfl, by assumption⟩
  · rintro ⟨a, u, rfl, h⟩
    exact .ask h

/-- A program that has ended asks for nothing more. -/
theorem Ends.unique {p : Program Q A α} {u u' v v' : List (Exchange Q A)} {a a' : α} (h : p.Ends u a)
    (h' : p.Ends u' a') (ht : u ++ v = u' ++ v') : u = u' ∧ a = a' ∧ v = v' := by
  induction p generalizing u u' with
  | done b =>
    obtain ⟨rfl, rfl⟩ := ends_done.mp h
    obtain ⟨rfl, rfl⟩ := ends_done.mp h'
    exact ⟨rfl, rfl, ht⟩
  | note line p ih => exact ih (ends_note.mp h) (ends_note.mp h') ht
  | ask q next ih =>
    obtain ⟨b, w, rfl, hw⟩ := ends_ask.mp h
    obtain ⟨b', w', rfl, hw'⟩ := ends_ask.mp h'
    obtain ⟨heq, hrest⟩ := List.cons.inj ht
    cases heq
    obtain ⟨rfl, ha, hv⟩ := ih b hw hw' hrest
    exact ⟨rfl, ha, hv⟩

/-- A program in two parts ends as its parts do, one after the other. -/
theorem ends_bind {p : Program Q A α} {f : α → Program Q A β} {t : List (Exchange Q A)} {b : β} :
    (p.bind f).Ends t b ↔ ∃ a u v, t = u ++ v ∧ p.Ends u a ∧ (f a).Ends v b := by
  constructor
  · intro h
    rcases path_bind h with ⟨p', hp, he⟩ | h
    · -- the first part can only stand at its end
      cases p' with
      | done a =>
        rw [bind] at he
        refine ⟨a, t, [], by simp, hp, ?_⟩
        rw [← he]
        exact .refl _
      | note => simp [bind] at he
      | ask => simp [bind] at he
    · exact h
  · rintro ⟨a, u, v, rfl, hu, hv⟩
    exact (hu.bind f).trans hv

/-- What a sequence asks is asked by its first part, or by the second once the first has ended. -/
theorem asks_bind {p : Program Q A α} {f : α → Program Q A β} {t : List (Exchange Q A)} {q : Q} :
    (p.bind f).Asks t q ↔ p.Asks t q ∨ ∃ a u v, t = u ++ v ∧ p.Ends u a ∧ (f a).Asks v q := by
  constructor
  · rintro ⟨next, h⟩
    rcases path_bind h with ⟨p', hp, he⟩ | ⟨a, u, v, rfl, hu, hv⟩
    · cases p' with
      | done a =>
        rw [bind] at he
        refine .inr ⟨a, t, [], by simp, hp, next, ?_⟩
        rw [← he]
        exact .refl _
      | note => simp [bind] at he
      | ask q' next' =>
        rw [bind] at he
        cases he
        exact .inl ⟨next', hp⟩
    · exact .inr ⟨a, u, v, rfl, hu, next, hv⟩
  · rintro (⟨next, h⟩ | ⟨a, u, v, rfl, hu, next, hv⟩)
    · exact ⟨_, h.bind f⟩
    · exact ⟨next, (hu.bind f).trans hv⟩

/-- What a program asks, and what it ends with, when it is answered by `answers`. -/
def outcome (answers : (q : Q) → A q) : Program Q A α → List (Exchange Q A) × α
  | done a => ([], a)
  | note _ p => p.outcome answers
  | ask q next =>
    let (t, a) := (next (answers q)).outcome answers
    (⟨q, answers q⟩ :: t, a)

theorem ends_outcome (answers : (q : Q) → A q) (p : Program Q A α) :
    p.Ends (p.outcome answers).1 (p.outcome answers).2 := by
  induction p with
  | done a => exact .refl _
  | note line p ih => exact .note ih
  | ask q next ih => exact .ask (ih (answers q))

/-- An action that succeeds when it is answered by `answers`. -/
theorem ends_of_outcome {answers : (q : Q) → A q} {p : Program Q A (Except ε α)} {a : α}
    (h : (p.outcome answers).2.toOption = some a) : p.Ends (p.outcome answers).1 (.ok a) := by
  have hends := ends_outcome answers p
  cases hr : (p.outcome answers).2 with
  | error e =>
    rw [hr] at h
    cases h
  | ok b =>
    rw [hr] at h hends
    cases h
    exact hends

theorem outcome_answers (answers : (q : Q) → A q) (p : Program Q A α) :
    ∀ e ∈ (p.outcome answers).1, e.answer = answers e.request := by
  induction p with
  | done a => exact List.forall_mem_nil _
  | note line p ih => exact ih
  | ask q next ih => exact List.forall_mem_cons.mpr ⟨rfl, ih (answers q)⟩

/-- A program whose requests are served by other programs asks what these ask. -/
theorem Path.serve {W : Type} {B : W → Type} {f : (q : Q) → Program W B (A q)}
    {wired : Exchange Q A → List (Exchange W B)} {p r : Program Q A α} {t : List (Exchange Q A)}
    (h : p.Path t r) (hf : ∀ e ∈ t, (f e.request).Ends (wired e) e.answer) :
    (p.serve f).Path (t.flatMap wired) (r.serve f) := by
  induction h with
  | refl p => exact .refl _
  | note _ ih => exact .note (ih hf)
  | ask _ ih =>
    obtain ⟨hfirst, hrest⟩ := List.forall_mem_cons.mp hf
    exact (hfirst.bind _).trans (ih hrest)

theorem serve_id (p : Program Q A α) : p.serve request = p := by
  induction p with
  | done a => rfl
  | note line p ih => exact congrArg (note line) ih
  | ask q next ih => exact congrArg (ask q) (funext ih)

/-- A span changes the lines that are written, and not what is asked. -/
theorem path_within {span : Log.SpanFields} {p r : Program Q A α} {t : List (Exchange Q A)}
    (h : (p.within span).Path t r) : ∃ r', r = r'.within span ∧ p.Path t r' := by
  induction p generalizing t with
  | done a =>
    cases h
    exact ⟨done a, rfl, .refl _⟩
  | note line p ih =>
    cases h with
    | refl => exact ⟨_, rfl, .refl _⟩
    | note h =>
      obtain ⟨r', hr, hp⟩ := ih h
      exact ⟨r', hr, .note hp⟩
  | ask q next ih =>
    cases h with
    | refl => exact ⟨_, rfl, .refl _⟩
    | @ask _ _ a _ _ h =>
      obtain ⟨r', hr, hp⟩ := ih a h
      exact ⟨r', hr, .ask hp⟩

theorem Path.within (span : Log.SpanFields) {p r : Program Q A α} {t : List (Exchange Q A)}
    (h : p.Path t r) : (p.within span).Path t (r.within span) := by
  induction h with
  | refl p => exact .refl _
  | note _ ih => exact .note ih
  | ask _ ih => exact .ask ih

theorem Asks.of_within {span : Log.SpanFields} {p : Program Q A α} {t : List (Exchange Q A)} {q : Q}
    (h : (p.within span).Asks t q) : p.Asks t q := by
  obtain ⟨next, h⟩ := h
  obtain ⟨r, hr, hp⟩ := path_within h
  cases r with
  | ask q' next' =>
    rw [within] at hr
    cases hr
    exact ⟨next', hp⟩
  | _ => simp [within] at hr

end Program

/-! ### Programs that may fail -/

section Failing

variable {Q : Type} {A : Q → Type} {α β ε δ : Type}

open Program

theorem run_bind (x : ExceptT ε (Program Q A) α) (f : α → ExceptT ε (Program Q A) β) :
    (x >>= f).run = x.run.bind fun
      | .ok a => (f a).run
      | .error e => done (.error e) := by
  refine congrArg x.run.bind (funext fun r => ?_)
  cases r <;> rfl

theorem run_adapt (f : ε → δ) (x : ExceptT ε (Program Q A) α) :
    (ExceptT.adapt f x).run = x.run.bind fun r => done (r.mapError f) := rfl

theorem run_lift (p : Program Q A α) :
    (ExceptT.lift p : ExceptT ε (Program Q A) α).run = p.bind fun a => done (.ok a) := rfl

/-- An action in two parts succeeds as both do. -/
theorem ends_run_bind {x : ExceptT ε (Program Q A) α} {f : α → ExceptT ε (Program Q A) β}
    {t : List (Exchange Q A)} {b : β} :
    (x >>= f).run.Ends t (.ok b) ↔
      ∃ a u v, t = u ++ v ∧ x.run.Ends u (.ok a) ∧ (f a).run.Ends v (.ok b) := by
  rw [run_bind, ends_bind]
  constructor
  · rintro ⟨a | a, u, v, rfl, hu, hv⟩
    · -- a failure of the first part would be the end
      cases (ends_done.mp hv).2
    · exact ⟨a, u, v, rfl, hu, hv⟩
  · rintro ⟨a, u, v, rfl, hu, hv⟩
    exact ⟨.ok a, u, v, rfl, hu, hv⟩

/-- What an action in two parts asks, either of them does, the second one after the success of the first. -/
theorem asks_run_bind {x : ExceptT ε (Program Q A) α} {f : α → ExceptT ε (Program Q A) β}
    {t : List (Exchange Q A)} {q : Q} :
    (x >>= f).run.Asks t q ↔ x.run.Asks t q ∨
      ∃ a u v, t = u ++ v ∧ x.run.Ends u (.ok a) ∧ (f a).run.Asks v q := by
  rw [run_bind, asks_bind]
  refine or_congr Iff.rfl ⟨?_, ?_⟩
  · rintro ⟨a | a, u, v, rfl, hu, next, hv⟩
    · cases hv
    · exact ⟨a, u, v, rfl, hu, next, hv⟩
  · rintro ⟨a, u, v, rfl, hu, hv⟩
    exact ⟨.ok a, u, v, rfl, hu, hv⟩

/-- What is made of the result is asked for nothing more. -/
theorem asks_run_map {x : ExceptT ε (Program Q A) α} {f : α → β} {t : List (Exchange Q A)} {q : Q} :
    (x >>= fun a => pure (f a)).run.Asks t q ↔ x.run.Asks t q := by
  rw [asks_run_bind]
  constructor
  · rintro (h | ⟨a, u, v, rfl, hu, next, hv⟩)
    · exact h
    · nomatch hv
  · exact .inl

theorem ends_run_map {x : ExceptT ε (Program Q A) α} {f : α → β} {t : List (Exchange Q A)} {b : β} :
    (x >>= fun a => pure (f a)).run.Ends t (.ok b) ↔ ∃ a, x.run.Ends t (.ok a) ∧ b = f a := by
  rw [ends_run_bind]
  constructor
  · rintro ⟨a, u, v, rfl, hu, hv⟩
    obtain ⟨rfl, ha⟩ := ends_done.mp hv
    cases ha
    rw [List.append_nil]
    exact ⟨a, hu, rfl⟩
  · rintro ⟨a, ha, rfl⟩
    exact ⟨a, t, [], (List.append_nil t).symm, ha, .refl _⟩

theorem ends_run_option {x : ExceptT ε (Program Q A) (Option α)} {f : α → β} {t : List (Exchange Q A)}
    {b : β} : (x >>= fun o => pure (o.map f)).run.Ends t (.ok (some b)) ↔
      ∃ a, b = f a ∧ x.run.Ends t (.ok (some a)) := by
  rw [ends_run_map]
  constructor
  · rintro ⟨o, ho, hb⟩
    obtain ⟨a, rfl, rfl⟩ := Option.map_eq_some_iff.mp hb.symm
    exact ⟨a, rfl, ho⟩
  · rintro ⟨a, rfl, ha⟩
    exact ⟨some a, ha, rfl⟩

end Failing

end OracleDuty
