import OracleDuty.Proofs.Path
/-!
Actions side by side. What may come of an action is told by the requests that it makes, each with its answer,
and by whether it is still under way, has failed or is done. Actions side by side make their requests in any
order among each other; the first failure is the failure of all.

Main statements: `behaviour_bind` and `behaviour_mapM`, by which actions one after the other are a case of
actions side by side.
-/
namespace OracleDuty

/-- How an action stands. -/
inductive Attempt (α : Type) where
  | underWay
  | failed
  | done (a : α)

abbrev Behaviour (Q : Type) (A : Q → Type) (α : Type) := List (Exchange Q A) → Attempt α → Prop

variable {Q E : Type} {A : Q → Type} {α β γ ε δ : Type}

/-- What may come of an action that does one thing after the other. -/
def behaviour (x : ExceptT ε (Program Q A) α) : Behaviour Q A α
  | t, .underWay => ∃ r, x.run.Path t r
  | t, .failed => ∃ e, x.run.Ends t (.error e)
  | t, .done a => x.run.Ends t (.ok a)

/-! ### Weaving -/

inductive Woven : List E → List E → List E → Prop where
  | nil : Woven [] [] []
  | left (e : E) {u v t : List E} (h : Woven u v t) : Woven (e :: u) v (e :: t)
  | right (e : E) {u v t : List E} (h : Woven u v t) : Woven u (e :: v) (e :: t)

namespace Woven

variable {u v t : List E}

theorem nil_left (v : List E) : Woven [] v v := by
  induction v with
  | nil => exact .nil
  | cons e v ih => exact .right e ih

theorem nil_right (u : List E) : Woven u [] u := by
  induction u with
  | nil => exact .nil
  | cons e u ih => exact .left e ih

theorem append_left (h : Woven u v t) (w : List E) : Woven (u ++ w) v (t ++ w) := by
  induction h with
  | nil => exact nil_right w
  | left e _ ih => exact .left e ih
  | right e _ ih => exact .right e ih

theorem append_right (h : Woven u v t) (w : List E) : Woven u (v ++ w) (t ++ w) := by
  induction h with
  | nil => exact nil_left w
  | left e _ ih => exact .left e ih
  | right e _ ih => exact .right e ih

/-- One list after the other. -/
theorem append (u v : List E) : Woven u v (u ++ v) := (nil_right u).append_right v

theorem mem_iff (h : Woven u v t) (e : E) : e ∈ t ↔ e ∈ u ∨ e ∈ v := by
  induction h with
  | nil => simp
  | left d _ ih => simp [ih, or_assoc]
  | right d _ ih => simp [ih, or_left_comm]

theorem sublist_left (h : Woven u v t) : u.Sublist t := by
  induction h with
  | nil => exact .slnil
  | left d _ ih => exact ih.cons_cons d
  | right d _ ih => exact ih.cons d

theorem sublist_right (h : Woven u v t) : v.Sublist t := by
  induction h with
  | nil => exact .slnil
  | left d _ ih => exact ih.cons d
  | right d _ ih => exact ih.cons_cons d

theorem length_eq (h : Woven u v t) : t.length = u.length + v.length := by
  induction h with
  | nil => rfl
  | left d _ ih => rw [List.length_cons, List.length_cons, ih, Nat.add_right_comm]
  | right d _ ih => rw [List.length_cons, List.length_cons, ih, Nat.add_assoc]

/-- What is woven of images is an image of what is woven in the same way. -/
theorem exists_map {D : Type} {f : D → E} {u v : List D} {t : List E}
    (h : Woven (u.map f) (v.map f) t) : ∃ s, t = s.map f ∧ Woven u v s := by
  generalize hu : u.map f = u' at h
  generalize hv : v.map f = v' at h
  induction h generalizing u v with
  | nil =>
    rw [List.map_eq_nil_iff] at hu hv
    subst hu hv
    exact ⟨[], rfl, .nil⟩
  | left e h ih =>
    obtain ⟨d, u, rfl, rfl, hrest⟩ := List.map_eq_cons_iff.mp hu
    obtain ⟨s, rfl, hs⟩ := ih hrest hv
    exact ⟨d :: s, rfl, .left d hs⟩
  | right e h ih =>
    obtain ⟨d, v, rfl, rfl, hrest⟩ := List.map_eq_cons_iff.mp hv
    obtain ⟨s, rfl, hs⟩ := ih hu hrest
    exact ⟨d :: s, rfl, .right d hs⟩

end Woven

namespace Behaviour

inductive Then (x : Behaviour Q A α) (f : α → Behaviour Q A β) : Behaviour Q A β where
  | underWay {t : List (Exchange Q A)} (hx : x t .underWay) : Then x f t .underWay
  | failed {t : List (Exchange Q A)} (hx : x t .failed) : Then x f t .failed
  | second {u v : List (Exchange Q A)} {a : α} {o : Attempt β} (hx : x u (.done a)) (hf : f a v o) :
    Then x f (u ++ v) o

inductive Both (x : Behaviour Q A α) (y : Behaviour Q A β) : Behaviour Q A (α × β) where
  | underWay {u v t : List (Exchange Q A)} (ht : Woven u v t) (hx : x u .underWay) (hy : y v .underWay) :
    Both x y t .underWay
  | failed_left {u v t : List (Exchange Q A)} (ht : Woven u v t) (hx : x u .failed) (hy : y v .underWay) :
    Both x y t .failed
  | failed_right {u v t : List (Exchange Q A)} (ht : Woven u v t) (hx : x u .underWay) (hy : y v .failed) :
    Both x y t .failed
  | done {u v t : List (Exchange Q A)} {a : α} {b : β} (ht : Woven u v t) (hx : x u (.done a))
    (hy : y v (.done b)) : Both x y t (.done (a, b))

inductive Pure (a : α) : Behaviour Q A α where
  | underWay : Pure a [] .underWay
  | done : Pure a [] (.done a)

def all : List (Behaviour Q A α) → Behaviour Q A (List α)
  | [] => Pure []
  | x :: xs => (x.Both (all xs)).Then fun p => Pure (p.1 :: p.2)

/-- What holds of the behaviour of an action. -/
structure Steady (x : Behaviour Q A α) : Prop where
  begins : x [] .underWay
  ripens : ∀ t a, x t (.done a) → x t .underWay
  /-- From wherever it stands it can come to its end, whatever is answered from there on. -/
  ends : ∀ t, x t .underWay → ∀ answers : (q : Q) → A q, ∃ u o, x (t ++ u) o ∧ o ≠ .underWay ∧
    ∀ e ∈ u, e.answer = answers e.request

end Behaviour

namespace Behaviour

variable {x x' : Behaviour Q A α} {y : Behaviour Q A β} {f f' : α → Behaviour Q A β}
  {t : List (Exchange Q A)}

theorem steady_pure (a : α) : (Pure a : Behaviour Q A α).Steady where
  begins := .underWay
  ripens := by
    intro t b h
    cases h
    exact .underWay
  ends := by
    intro t h answers
    cases h
    exact ⟨[], .done a, .done, nofun, List.forall_mem_nil _⟩

/-- In sequence, a run that stands anywhere can come to its end: through the first action, and then the second.
-/
theorem Steady.then (hx : x.Steady) (hf : ∀ a, (f a).Steady) : (x.Then f).Steady where
  begins := .underWay hx.begins
  ripens := by
    intro t b h
    cases h with
    | second ha hb => exact .second ha ((hf _).ripens _ b hb)
  ends := by
    intro t h answers
    -- once the first action has ended, the second one can go on to its own end
    have hsecond : ∀ u a v, x u (.done a) → f a v .underWay →
        ∃ w o, x.Then f (u ++ v ++ w) o ∧ o ≠ .underWay ∧ ∀ e ∈ w, e.answer = answers e.request := by
      intro u a v ha hv
      obtain ⟨w, o, ho, hne, hw⟩ := (hf a).ends v hv answers
      refine ⟨w, o, ?_, hne, hw⟩
      rw [List.append_assoc]
      exact .second ha ho
    cases h with
    | underWay h =>
      obtain ⟨u, o, ho, hne, hu⟩ := hx.ends t h answers
      cases o with
      | underWay => exact absurd rfl hne
      | failed => exact ⟨u, .failed, .failed ho, nofun, hu⟩
      | done a =>
        obtain ⟨w, o, hw, hne, hanswers⟩ := hsecond _ a [] ho (hf a).begins
        rw [List.append_nil, List.append_assoc] at hw
        exact ⟨u ++ w, o, hw, hne, List.forall_mem_append.mpr ⟨hu, hanswers⟩⟩
    | second ha hv => exact hsecond _ _ _ ha hv

/-- Side by side, each of the two is brought to its end in turn. -/
theorem Steady.both (hx : x.Steady) (hy : y.Steady) : (x.Both y).Steady where
  begins := .underWay .nil hx.begins hy.begins
  ripens := by
    intro t p h
    cases h with
    | done ht ha hb => exact .underWay ht (hx.ripens _ _ ha) (hy.ripens _ _ hb)
  ends := by
    intro t h answers
    cases h with
    | underWay ht hu hv =>
    obtain ⟨u', o, ho, hne, hanswers⟩ := hx.ends _ hu answers
    have ht := ht.append_left u'
    cases o with
    | underWay => exact absurd rfl hne
    | failed => exact ⟨u', .failed, .failed_left ht ho hv, nofun, hanswers⟩
    | done a =>
      -- the first action has ended, and the second one goes on
      obtain ⟨v', o', ho', hne', hanswers'⟩ := hy.ends _ hv answers
      have hall := List.forall_mem_append.mpr ⟨hanswers, hanswers'⟩
      have ht := ht.append_right v'
      rw [List.append_assoc] at ht
      cases o' with
      | underWay => exact absurd rfl hne'
      | failed => exact ⟨u' ++ v', .failed, .failed_right ht (hx.ripens _ a ho) ho', nofun, hall⟩
      | done b => exact ⟨u' ++ v', .done (a, b), .done ht ho ho', nofun, hall⟩

theorem steady_all {xs : List (Behaviour Q A α)} (h : ∀ x ∈ xs, x.Steady) : (all xs).Steady := by
  induction xs with
  | nil => exact steady_pure []
  | cons x xs ih =>
    have hx := h x List.mem_cons_self
    have hxs := ih fun y hy => h y (List.mem_cons_of_mem x hy)
    exact (hx.both hxs).then fun p => steady_pure _

theorem Then.mono {o : Attempt β} (h : x.Then f t o) (hx : ∀ t o, x t o → x' t o)
    (hf : ∀ a t o, f a t o → f' a t o) : x'.Then f' t o := by
  cases h with
  | underWay h => exact .underWay (hx _ _ h)
  | failed h => exact .failed (hx _ _ h)
  | second h h' => exact .second (hx _ _ h) (hf _ _ _ h')

theorem Then.assoc {g : β → Behaviour Q A γ} {o : Attempt γ} (h : (x.Then f).Then g t o) :
    x.Then (fun a => (f a).Then g) t o := by
  cases h with
  | underWay h =>
    cases h with
    | underWay h => exact .underWay h
    | second h h' => exact .second h (.underWay h')
  | failed h =>
    cases h with
    | failed h => exact .failed h
    | second h h' => exact .second h (.failed h')
  | second h h' =>
    cases h with
    | second h h'' =>
      rw [List.append_assoc]
      exact .second h (.second h'' h')

theorem Then.of_pure {a : α} {o : Attempt β} (h : (Pure a).Then f t o) (hf : (f a).Steady) : f a t o := by
  cases h with
  | underWay h =>
    cases h
    exact hf.begins
  | failed h => cases h
  | second h h' =>
    cases h
    exact h'

/-- Two actions one after the other, neither of which depends on the other, might go on side by side. -/
theorem Then.both {g : α → β → Behaviour Q A γ} {o : Attempt γ}
    (h : x.Then (fun a => y.Then fun b => g a b) t o) (hx : x.Steady) (hy : y.Steady) :
    (x.Both y).Then (fun p => g p.1 p.2) t o := by
  cases h with
  | underWay h => exact .underWay (.underWay (.nil_right t) h hy.begins)
  | failed h => exact .failed (.failed_left (.nil_right t) h hy.begins)
  | @second u v a _ ha h =>
    have hripe := hx.ripens u a ha
    cases h with
    | underWay h => exact .underWay (.underWay (.append u v) hripe h)
    | failed h => exact .failed (.failed_right (.append u v) hripe h)
    | @second v w b _ hb h =>
      rw [← List.append_assoc]
      exact .second (.done (.append u v) ha hb) h

end Behaviour

open Program Behaviour

/-! ### Actions one after the other -/

variable {t : List (Exchange Q A)}

theorem behaviour_path {x : ExceptT ε (Program Q A) α} {o : Attempt α} (h : behaviour x t o) :
    ∃ r, x.run.Path t r := by
  cases o with
  | underWay => exact h
  | failed =>
    obtain ⟨e, h⟩ := h
    exact ⟨_, h⟩
  | done a => exact ⟨_, h⟩

/-- A program stands somewhere on its way, and goes on by any answer. -/
theorem behaviour_steady (x : ExceptT ε (Program Q A) α) : (behaviour x).Steady where
  begins := ⟨_, .refl _⟩
  ripens := fun _ _ h => ⟨_, h⟩
  ends := by
    rintro t ⟨r, hr⟩ answers
    have hends := hr.trans (ends_outcome answers r)
    have hanswers := outcome_answers answers r
    generalize r.outcome answers = result at hends hanswers
    obtain ⟨u, e | a⟩ := result
    · exact ⟨u, .failed, ⟨e, hends⟩, nofun, hanswers⟩
    · exact ⟨u, .done a, hends, nofun, hanswers⟩

theorem steady_map {D : Type} (f : D → ExceptT ε (Program Q A) α) (l : List D) :
    (all (l.map fun d => behaviour (f d))).Steady := by
  apply steady_all
  intro x hx
  obtain ⟨d, _, rfl⟩ := List.mem_map.mp hx
  exact behaviour_steady _

theorem behaviour_pure {a : α} {o : Attempt α} (h : behaviour (pure a : ExceptT ε (Program Q A) α) t o) :
    Pure a t o := by
  cases o with
  | underWay =>
    obtain ⟨r, h⟩ := h
    cases h
    exact .underWay
  | failed =>
    obtain ⟨e, h⟩ := h
    nomatch h
  | done b =>
    cases h
    exact .done

/-- Notes are not part of what is asked. -/
theorem behaviour_note {x : ExceptT ε (Program Q A) α} {line : Line} {a : α} {o : Attempt α}
    (hx : x.run = .note line (.done (.ok a))) (h : behaviour x t o) : Pure a t o := by
  cases o with
  | underWay =>
    obtain ⟨r, h⟩ := h
    rw [hx] at h
    cases h with
    | refl => exact .underWay
    | note h =>
      cases h
      exact .underWay
  | failed =>
    obtain ⟨e, h⟩ := h
    rw [hx, ends_note, ends_done] at h
    nomatch h.2
  | done b =>
    change x.run.Ends t (.ok b) at h
    rw [hx, ends_note, ends_done] at h
    obtain ⟨rfl, hb⟩ := h
    cases hb
    exact .done

/-- What may come of a sequence is what may come of its parts. -/
theorem behaviour_bind {x : ExceptT ε (Program Q A) α} {f : α → ExceptT ε (Program Q A) β}
    {o : Attempt β} (h : behaviour (x >>= f) t o) :
    (behaviour x).Then (fun a => behaviour (f a)) t o := by
  cases o with
  | underWay =>
    obtain ⟨r, h⟩ := h
    rw [run_bind] at h
    rcases path_bind h with ⟨p, hp, _⟩ | ⟨result, u, v, rfl, hu, hv⟩
    · exact .underWay ⟨p, hp⟩
    cases result with
    | error e =>
      -- nothing follows a failure
      cases hv
      rw [List.append_nil]
      exact .underWay ⟨_, hu⟩
    | ok a => exact .second hu ⟨r, hv⟩
  | failed =>
    obtain ⟨e, h⟩ := h
    rw [run_bind] at h
    obtain ⟨result, u, v, rfl, hu, hv⟩ := ends_bind.mp h
    cases result with
    | error e' =>
      obtain ⟨rfl, _⟩ := ends_done.mp hv
      rw [List.append_nil]
      exact .failed ⟨e', hu⟩
    | ok a => exact .second hu ⟨e, hv⟩
  | done b =>
    obtain ⟨a, u, v, rfl, hu, hv⟩ := ends_run_bind.mp h
    exact .second hu hv

/-- Failures may be told in other words. -/
theorem behaviour_adapt {f : ε → δ} {x : ExceptT ε (Program Q A) α} {o : Attempt α}
    (h : behaviour (ExceptT.adapt f x) t o) : behaviour x t o := by
  cases o with
  | underWay =>
    obtain ⟨r, h⟩ := h
    rw [run_adapt] at h
    rcases path_bind h with ⟨p, hp, _⟩ | ⟨result, u, v, rfl, hu, hv⟩
    · exact ⟨p, hp⟩
    · cases hv
      rw [List.append_nil]
      exact ⟨_, hu⟩
  | failed =>
    obtain ⟨e, h⟩ := h
    rw [run_adapt] at h
    obtain ⟨result, u, v, rfl, hu, hv⟩ := ends_bind.mp h
    obtain ⟨rfl, he⟩ := ends_done.mp hv
    rw [List.append_nil]
    cases result with
    | error e' => exact ⟨e', hu⟩
    | ok a => nomatch he
  | done a =>
    change (ExceptT.adapt f x).run.Ends t (.ok a) at h
    rw [run_adapt] at h
    obtain ⟨result, u, v, rfl, hu, hv⟩ := ends_bind.mp h
    obtain ⟨rfl, ha⟩ := ends_done.mp hv
    rw [List.append_nil]
    cases result with
    | error e' => nomatch ha
    | ok a' =>
      cases ha
      exact hu

section Served

variable {W : Type} {B : W → Type} {f : (q : Q) → Program W B (A q)}

def served (f : (q : Q) → Program W B (A q)) (x : ExceptT ε (Program Q A) α) : ExceptT ε (Program W B) α :=
  ExceptT.mk (x.run.serve f)

theorem serve_request (f : (q : Q) → Program W B (A q)) (q : Q) : (Program.request q).serve f = f q :=
  bind_done (f q)

theorem behaviour_served_bind {x : ExceptT ε (Program Q A) α} {g : α → ExceptT ε (Program Q A) β}
    {t : List (Exchange W B)} {o : Attempt β} (h : behaviour (served f (x >>= g)) t o) :
    (behaviour (served f x)).Then (fun a => behaviour (served f (g a))) t o := by
  have hserved : served f (x >>= g) = served f x >>= fun a => served f (g a) := by
    change (x >>= g).run.serve f = (served f x >>= fun a => served f (g a)).run
    rw [run_bind, run_bind, serve_bind]
    refine congrArg _ (funext fun r => ?_)
    cases r <;> rfl
  rw [hserved] at h
  exact behaviour_bind h

theorem behaviour_served_adapt {g : ε → δ} {x : ExceptT ε (Program Q A) α} {t : List (Exchange W B)}
    {o : Attempt α} (h : behaviour (served f (ExceptT.adapt g x)) t o) : behaviour (served f x) t o := by
  have hserved : served f (ExceptT.adapt g x) = ExceptT.adapt g (served f x) := by
    change (ExceptT.adapt g x).run.serve f = (ExceptT.adapt g (served f x)).run
    rw [run_adapt, run_adapt, serve_bind]
    rfl
  rw [hserved] at h
  exact behaviour_adapt h

end Served

/-- One after the other is one of the ways to go side by side. -/
theorem behaviour_mapM {D : Type} {f : D → ExceptT ε (Program Q A) α} {l : List D} {o : Attempt (List α)}
    (h : behaviour (l.mapM f) t o) : all (l.map fun d => behaviour (f d)) t o := by
  induction l generalizing t o with
  | nil => exact behaviour_pure h
  | cons d l ih =>
    rw [List.mapM_cons] at h
    have hseq : (behaviour (f d)).Then (fun a => (all (l.map fun d => behaviour (f d))).Then fun as =>
        Pure (a :: as)) t o := by
      refine (behaviour_bind h).mono (fun _ _ h => h) fun a t o h => ?_
      exact (behaviour_bind h).mono (fun _ _ h => ih h) fun as t o h => behaviour_pure h
    exact hseq.both (behaviour_steady (f d)) (steady_map f l)

end OracleDuty
