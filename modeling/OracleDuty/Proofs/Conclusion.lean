import OracleDuty.Proofs.Path
/-!
Programs carried to their end, with all that is asked and all that is written on the way.

Main statements: `concludes_bind` and `concludes_run_bind` take a sequence apart, and `Ends.concludes` finds
what is written wherever a program ends.
-/
namespace OracleDuty

namespace Program

variable {Q : Type} {A : Q → Type} {α β : Type}

/-- `p` ends with `b` when its requests are answered as in `t`, and has written `lines` by then. -/
inductive Concludes : Program Q A α → List (Exchange Q A) → List Line → α → Prop where
  | done (a : α) : Concludes (done a) [] [] a
  | note {line : Line} {p : Program Q A α} {t : List (Exchange Q A)} {lines : List Line} {b : α}
    (h : Concludes p t lines b) : Concludes (note line p) t (line :: lines) b
  | ask {q : Q} {next : A q → Program Q A α} {a : A q} {t : List (Exchange Q A)} {lines : List Line}
    {b : α} (h : Concludes (next a) t lines b) : Concludes (ask q next) (⟨q, a⟩ :: t) lines b

variable {p : Program Q A α} {t : List (Exchange Q A)} {lines : List Line}

theorem Concludes.ends {a : α} (h : p.Concludes t lines a) : p.Ends t a := by
  induction h with
  | done a => exact .refl _
  | note _ ih => exact .note ih
  | ask _ ih => exact .ask ih

/-- A program that ends has written some lines by then. -/
theorem Ends.concludes {a : α} (h : p.Ends t a) : ∃ lines, p.Concludes t lines a := by
  unfold Ends at h
  generalize hr : done a = r at h
  induction h with
  | refl p =>
    subst hr
    exact ⟨[], .done a⟩
  | @note line p r t _ ih =>
    obtain ⟨lines, hlines⟩ := ih hr
    exact ⟨line :: lines, .note hlines⟩
  | ask _ ih =>
    obtain ⟨lines, hlines⟩ := ih hr
    exact ⟨lines, .ask hlines⟩

@[simp] theorem concludes_done {a b : α} :
    (done a : Program Q A α).Concludes t lines b ↔ t = [] ∧ lines = [] ∧ a = b := by
  constructor
  · intro h
    cases h
    exact ⟨rfl, rfl, rfl⟩
  · rintro ⟨rfl, rfl, rfl⟩
    exact .done a

theorem concludes_note {line : Line} {b : α} :
    (note line p).Concludes t lines b ↔ ∃ rest, lines = line :: rest ∧ p.Concludes t rest b := by
  constructor
  · intro h
    cases h with
    | note h => exact ⟨_, rfl, h⟩
  · rintro ⟨rest, rfl, h⟩
    exact .note h

/-- A program that asks goes on after the answer as the answer says. -/
theorem concludes_ask {q : Q} {next : A q → Program Q A α} {b : α} :
    (ask q next).Concludes t lines b ↔
      ∃ a u, t = ⟨q, a⟩ :: u ∧ (next a).Concludes u lines b := by
  constructor
  · intro h
    cases h with
    | ask h => exact ⟨_, _, rfl, h⟩
  · rintro ⟨a, u, rfl, h⟩
    exact .ask h

/-- A sequence is carried to its end by one part after the other. -/
theorem concludes_bind {f : α → Program Q A β} {b : β} :
    (p.bind f).Concludes t lines b ↔ ∃ a u v k m, t = u ++ v ∧ lines = k ++ m ∧
      p.Concludes u k a ∧ (f a).Concludes v m b := by
  constructor
  · -- by induction on the first part, which asks and writes at the front
    intro h
    induction p generalizing t lines with
    | done a => exact ⟨a, [], t, [], lines, rfl, rfl, .done a, h⟩
    | note line next ih =>
      obtain ⟨rest, rfl, hrest⟩ := concludes_note.mp h
      obtain ⟨a, u, v, k, m, ht, hl, hp, hf⟩ := ih hrest
      exact ⟨a, u, v, line :: k, m, ht, congrArg (line :: ·) hl, .note hp, hf⟩
    | ask q next ih =>
      obtain ⟨c, w, rfl, hrest⟩ := concludes_ask.mp h
      obtain ⟨a, u, v, k, m, ht, hl, hp, hf⟩ := ih c hrest
      exact ⟨a, ⟨q, c⟩ :: u, v, k, m, congrArg (⟨q, c⟩ :: ·) ht, hl, .ask hp, hf⟩
  · rintro ⟨a, u, v, k, m, rfl, rfl, hp, hf⟩
    induction hp with
    | done a => exact hf
    | note _ ih => exact .note (ih hf)
    | ask _ ih => exact .ask (ih hf)

/-- An entry that a sequence begins with is written in no span. -/
theorem concludes_write_bind {e : Entry} {f : Unit → Program Q A β} {b : β} :
    (write e >>= f).Concludes t lines b ↔ ∃ rest, lines = ⟨[], e⟩ :: rest ∧ (f ()).Concludes t rest b :=
  concludes_note

/-- A span is put around all that is written, and around nothing else. -/
theorem concludes_within {span : Log.SpanFields} {a : α} :
    (p.within span).Concludes t lines a ↔
      ∃ inner, lines = inner.map (Line.within span) ∧ p.Concludes t inner a := by
  constructor
  · intro h
    induction p generalizing t lines with
    | done b =>
      obtain ⟨rfl, rfl, rfl⟩ := concludes_done.mp h
      exact ⟨[], rfl, .done b⟩
    | note line next ih =>
      obtain ⟨rest, rfl, hrest⟩ := concludes_note.mp h
      obtain ⟨inner, rfl, hinner⟩ := ih hrest
      exact ⟨line :: inner, rfl, .note hinner⟩
    | ask q next ih =>
      obtain ⟨c, u, rfl, hrest⟩ := concludes_ask.mp h
      obtain ⟨inner, rfl, hinner⟩ := ih c hrest
      exact ⟨inner, rfl, .ask hinner⟩
  · rintro ⟨inner, rfl, h⟩
    induction h with
    | done a => exact .done a
    | note _ ih => exact .note ih
    | ask _ ih => exact .ask ih

/-! ### What is written -/

/-- Whatever the program is answered, `P` holds of each line that it writes. -/
def Writes (P : Line → Prop) : Program Q A α → Prop
  | done _ => True
  | note line p => P line ∧ p.Writes P
  | ask _ next => ∀ a, (next a).Writes P

variable {P : Line → Prop}

theorem Writes.bind {f : α → Program Q A β} (hp : p.Writes P) (hf : ∀ a, (f a).Writes P) :
    (p.bind f).Writes P := by
  induction p with
  | done a => exact hf a
  | note line p ih => exact ⟨hp.1, ih hp.2⟩
  | ask q next ih =>
    intro a
    exact ih a (hp a)

theorem Concludes.writes {a : α} (h : p.Concludes t lines a) (hp : p.Writes P) : ∀ l ∈ lines, P l := by
  induction h with
  | done a => exact List.forall_mem_nil P
  | note _ ih => exact List.forall_mem_cons.mpr ⟨hp.1, ih hp.2⟩
  | ask _ ih => exact ih (hp _)

end Program

/-! ### Programs that may fail -/

section Failing

variable {Q : Type} {A : Q → Type} {α β ε : Type} {t : List (Exchange Q A)} {lines : List Line}

open Program

/-- A sequence ends with a failure of its first part, or goes on with what the first part gives. -/
theorem concludes_run_bind {x : ExceptT ε (Program Q A) α} {f : α → ExceptT ε (Program Q A) β}
    {r : Except ε β} :
    (x >>= f).run.Concludes t lines r ↔
      (∃ e, x.run.Concludes t lines (.error e) ∧ r = .error e) ∨
        ∃ a u v k m, t = u ++ v ∧ lines = k ++ m ∧ x.run.Concludes u k (.ok a) ∧
          (f a).run.Concludes v m r := by
  rw [run_bind, concludes_bind]
  constructor
  · rintro ⟨e | a, u, v, k, m, rfl, rfl, hx, hf⟩
    · obtain ⟨rfl, rfl, rfl⟩ := concludes_done.mp hf
      rw [List.append_nil, List.append_nil]
      exact .inl ⟨e, hx, rfl⟩
    · exact .inr ⟨a, u, v, k, m, rfl, rfl, hx, hf⟩
  · rintro (⟨e, hx, rfl⟩ | ⟨a, u, v, k, m, rfl, rfl, hx, hf⟩)
    · exact ⟨.error e, t, [], lines, [], by simp, by simp, hx, .done _⟩
    · exact ⟨.ok a, u, v, k, m, rfl, rfl, hx, hf⟩

/-- A part that cannot fail goes on with what it gives. -/
theorem concludes_lift_bind {p : Program Q A α} {f : α → ExceptT ε (Program Q A) β} {r : Except ε β} :
    ((ExceptT.lift p : ExceptT ε (Program Q A) α) >>= f).run.Concludes t lines r ↔
      ∃ a u v k m, t = u ++ v ∧ lines = k ++ m ∧ p.Concludes u k a ∧ (f a).run.Concludes v m r := by
  rw [run_bind, run_lift, bind_assoc]
  exact concludes_bind

theorem Program.Writes.run_bind {P : Line → Prop} {x : ExceptT ε (Program Q A) α}
    {f : α → ExceptT ε (Program Q A) β} (hx : x.run.Writes P) (hf : ∀ a, (f a).run.Writes P) :
    (x >>= f).run.Writes P := by
  rw [OracleDuty.run_bind]
  refine hx.bind ?_
  rintro (e | a)
  · trivial
  · exact hf a

end Failing

end OracleDuty
