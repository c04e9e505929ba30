import OracleDuty.Proofs.Beacon.Fetching
/-!
A single call among others, with the place that keeps a timing for all of them.

Main statements: `Visit.Sound.step` and `Visit.Late.step` say what each step of a call keeps.
-/
namespace OracleDuty.Beacon

open Program

variable {n : Node}

/-! ### Calls among others -/

/-- What an act finds in the place that keeps a timing, and what it leaves there. All other requests may get
any answer. -/
inductive Keeping : Option Chain.Timing → Act Wire.Request Wire.Answer → Option Chain.Timing → Prop where
  | write (kept : Option Chain.Timing) (line : Line) : Keeping kept (.write line) kept
  | send (kept : Option Chain.Timing) (q : Wire.Request) : Keeping kept (.send q) kept
  | look (kept : Option Chain.Timing) : Keeping kept (.hear .keptTiming kept) kept
  | keep (kept : Option Chain.Timing) (t : Chain.Timing) :
    Keeping kept (.hear (.keepTiming t) (Wire.keep kept t)) (some (Wire.keep kept t))
  | other (kept : Option Chain.Timing) {q : Wire.Request} (a : Wire.Answer q) (hlook : q ≠ .keptTiming)
    (hkeep : ∀ t, q ≠ .keepTiming t) : Keeping kept (.hear q a) kept

inductive Standing where
  | underWay (p : Progress Wire.Request Wire.Answer Result)
  | returned (r : Result)
  | dropped

structure Visit where
  call : Call
  acts : List (Act Wire.Request Wire.Answer)
  standing : Standing

def Visit.begun (n : Node) (c : Call) : Visit := ⟨c, [], .underWay (.ready (c.course n))⟩

inductive Visit.Step : Option Chain.Timing → Visit → Option Chain.Timing → Visit → Prop where
  | act {kept kept' : Option Chain.Timing} {call : Call} {acts : List (Act Wire.Request Wire.Answer)}
    {p p' : Progress Wire.Request Wire.Answer Result} {act : Act Wire.Request Wire.Answer}
    (hp : p.Moves act (some p')) (hk : Keeping kept act kept') :
    Step kept ⟨call, acts, .underWay p⟩ kept' ⟨call, acts ++ [act], .underWay p'⟩
  | finish (kept : Option Chain.Timing) (call : Call) (acts : List (Act Wire.Request Wire.Answer))
    (r : Result) :
    Step kept ⟨call, acts, .underWay (.ready (.done r))⟩ kept ⟨call, acts, .returned r⟩
  | drop (kept : Option Chain.Timing) (call : Call) (acts : List (Act Wire.Request Wire.Answer))
    (p : Progress Wire.Request Wire.Answer Result) :
    Step kept ⟨call, acts, .underWay p⟩ kept ⟨call, acts, .dropped⟩

namespace Visit

def heard (x : Visit) : List (Exchange Wire.Request Wire.Answer) := x.acts.flatMap Act.exchanges

def phase (x : Visit) : Phase :=
  x.heard.foldl (fun m e => m.next e.request e.answer) .opening

def Stores (x : Visit) : Prop := ∃ t t', .hear (.keepTiming t) t' ∈ x.acts

def Obtains (x : Visit) (t : Chain.Timing) : Prop :=
  (∃ act ∈ x.acts, Gives t act) ∨ x.standing = .returned (.timing (.ok t))

def FetchFails (n : Node) (x : Visit) : Prop := ∃ act ∈ x.acts, Misses n act

structure GoesBy (n : Node) (t : Chain.Timing) (x : Visit) : Prop where
  spares : ∀ topic q, topic = .genesis ∨ topic = .spec → n.inquiry? topic = some q →
    .send (.http q) ∉ x.acts
  timing : ∀ r, x.standing = .returned (.timing r) → r = .ok t
  head : ∀ h, x.standing = .returned (.head (.ok h)) → h.epoch = h.slot / t.slotsPerEpoch

end Visit

/-! ### What a step keeps -/

theorem Keeping.mono {kept kept' : Option Chain.Timing} {act : Act Wire.Request Wire.Answer}
    (h : Keeping kept act kept') {t : Chain.Timing} (ht : kept = some t) : kept' = some t := by
  subst ht
  cases h with
  | keep t' => rfl
  | _ => rfl

/-- What an answer gives is kept from then on. -/
theorem Keeping.gives {kept kept' : Option Chain.Timing} {act : Act Wire.Request Wire.Answer}
    (h : Keeping kept act kept') {t : Chain.Timing} (ht : Gives t act) : kept' = some t := by
  cases ht with
  | look =>
    cases h with
    | look => rfl
    | other _ hlook _ => exact absurd rfl hlook
  | keep t' =>
    cases h with
    | keep => rfl
    | other _ _ hkeep => exact absurd rfl (hkeep t')

namespace Visit

structure Sound (n : Node) (kept : Option Chain.Timing) (x : Visit) : Prop where
  course : match x.standing with
    | .underWay p => p.program.Follows (fetching n) x.phase (Phase.Concludes n)
    | .returned r => x.phase.Concludes n r
    | .dropped => True
  knowing_iff : ∀ t, x.phase = .knowing t ↔ ∃ act ∈ x.acts, Gives t act
  failed_iff : x.phase = .failed ↔ x.FetchFails n
  kept : ∀ t, x.phase = .knowing t → kept = some t

variable {kept kept' : Option Chain.Timing} {x x' : Visit} {call : Call}
  {acts : List (Act Wire.Request Wire.Answer)}

theorem Sound.mono (h : x.Sound n kept) (hk : ∀ t, kept = some t → kept' = some t) :
    x.Sound n kept' := ⟨h.course, h.knowing_iff, h.failed_iff, fun t ht => hk t (h.kept t ht)⟩

theorem sound_begun (n : Node) (kept : Option Chain.Timing) (c : Call) : (begun n c).Sound n kept where
  course := course_follows c
  knowing_iff := by simp [begun, phase, heard]
  failed_iff := by simp [begun, phase, heard, FetchFails]
  kept := by simp [begun, phase, heard]

theorem phase_append (call : Call) (acts : List (Act Wire.Request Wire.Answer))
    (act : Act Wire.Request Wire.Answer) (standing standing' : Standing) :
    (⟨call, acts ++ [act], standing'⟩ : Visit).phase =
      act.exchanges.foldl (fun m e => m.next e.request e.answer) (⟨call, acts, standing⟩ : Visit).phase := by
  simp [phase, heard, List.flatMap_append]

/-- What is heard leads on as the script has it. -/
theorem Sound.hear {q : Wire.Request} {a : Wire.Answer q} {next : Wire.Answer q → Wire.Course Result}
    (h : (⟨call, acts, .underWay (.held q next)⟩ : Visit).Sound n kept) (hk : Keeping kept (.hear q a) kept') :
    (⟨call, acts ++ [.hear q a], .underWay (.ready (next a))⟩ : Visit).Sound n kept' := by
  obtain ⟨hasks, hnext⟩ := h.course
  have hphase := phase_append call acts (.hear q a) (.underWay (.held q next)) (.underWay (.ready (next a)))
  simp only [Act.exchanges, List.foldl_cons, List.foldl_nil] at hphase
  have hknowing := h.knowing_iff
  have hfailed := h.failed_iff
  have hkept := h.kept
  generalize (⟨call, acts, .underWay (.held q next)⟩ : Visit).phase = m at *
  have hnf : m ≠ .failed := by
    rintro rfl
    cases hasks
  constructor
  case course =>
    rw [hphase]
    exact hnext a
  case knowing_iff =>
    intro t
    rw [hphase, Phase.next_eq_knowing_iff hasks, hknowing t]
    simp [or_and_right, exists_or]
  case failed_iff =>
    have hnone : ¬∃ act ∈ acts, Misses n act := fun hm => hnf (hfailed.mpr hm)
    rw [hphase, Phase.next_eq_failed_iff hasks]
    simp only [FetchFails, List.mem_append, List.mem_singleton, or_and_right, exists_or, hnone, false_or,
      exists_eq_left]
  case kept =>
    intro t ht
    rw [hphase] at ht
    rcases (Phase.next_eq_knowing_iff hasks).mp ht with hm | hg
    · exact hk.mono (hkept t hm)
    · exact hk.gives hg

/-- What is written or sent changes nothing. -/
theorem Sound.quiet {act : Act Wire.Request Wire.Answer} {p p' : Progress Wire.Request Wire.Answer Result}
    (h : (⟨call, acts, .underWay p⟩ : Visit).Sound n kept) (hact : act.exchanges = [])
    (hcourse : ∀ m, p.program.Follows (fetching n) m (Phase.Concludes n) →
      p'.program.Follows (fetching n) m (Phase.Concludes n)) :
    (⟨call, acts ++ [act], .underWay p'⟩ : Visit).Sound n kept := by
  have hphase := phase_append call acts act (.underWay p) (.underWay p')
  rw [hact, List.foldl_nil] at hphase
  have hgives : ∀ t, ¬Gives t act := by
    intro t hg
    cases hg <;> cases hact
  have hmiss : ¬Misses n act := by
    intro hm
    cases hm <;> cases hact
  constructor
  case course =>
    rw [hphase]
    exact hcourse _ h.course
  case knowing_iff =>
    intro t
    rw [hphase, h.knowing_iff t]
    simp [or_and_right, exists_or, hgives t]
  case failed_iff =>
    rw [hphase, h.failed_iff]
    simp [FetchFails, or_and_right, exists_or, hmiss]
  case kept =>
    rw [hphase]
    exact h.kept

/-- One step keeps a call on its script, and true to what it was answered. -/
theorem Sound.step (h : x.Sound n kept) (hx : Step kept x kept' x') : x'.Sound n kept' := by
  cases hx with
  | finish call acts r => exact ⟨h.course, h.knowing_iff, h.failed_iff, h.kept⟩
  | drop call acts p => exact ⟨trivial, h.knowing_iff, h.failed_iff, h.kept⟩
  | act hp hk =>
    cases hp with
    | write line p =>
      cases hk
      exact h.quiet rfl fun m hm => hm
    | send q next =>
      cases hk
      exact h.quiet rfl fun m hm => hm
    | hear q next a => exact h.hear hk

theorem Sound.kept_of_stores (h : x.Sound n kept) (hx : x.Stores) : kept.isSome = true := by
  obtain ⟨t, t', hmem⟩ := hx
  have hknowing := (h.knowing_iff t').mpr ⟨_, hmem, .keep t⟩
  rw [h.kept t' hknowing]
  rfl

/-- What is kept in a step was kept before, or the call stores it. -/
theorem Step.stores (hx : Step kept x kept' x') :
    (x.Stores → x'.Stores) ∧ (kept'.isSome = true → kept.isSome = true ∨ x'.Stores) := by
  cases hx with
  | finish call acts r => exact ⟨fun h => h, .inl⟩
  | drop call acts p => exact ⟨fun h => h, .inl⟩
  | act hp hk =>
    constructor
    · rintro ⟨t, t', hmem⟩
      exact ⟨t, t', List.mem_append_left _ hmem⟩
    · intro hkept
      cases hk with
      | keep t => exact .inr ⟨t, _, List.mem_append_right _ List.mem_cons_self⟩
      | _ => exact .inl hkept

theorem Step.mono (hx : Step kept x kept' x') : ∀ t, kept = some t → kept' = some t := by
  intro t ht
  cases hx with
  | act hp hk => exact hk.mono ht
  | finish call acts r => exact ht
  | drop call acts p => exact ht

structure Late (n : Node) (t : Chain.Timing) (x : Visit) : Prop where
  phase : x.phase = .opening ∨ x.phase = .knowing t
  spares : ∀ topic q, topic = .genesis ∨ topic = .spec → n.inquiry? topic = some q →
    .send (.http q) ∉ x.acts

theorem late_begun (n : Node) (t : Chain.Timing) (c : Call) : (begun n c).Late n t where
  phase := .inl rfl
  spares := fun _ _ _ _ hq => nomatch hq

/-- From its phases a late call asks neither for genesis nor for the lengths. -/
theorem asks_ne_of_late {m : Phase} {t : Chain.Timing} {q : Wire.Request} (hasks : m.Asks n q)
    (hm : m = .opening ∨ m = .knowing t) {topic : Topic} (htopic : topic = .genesis ∨ topic = .spec)
    {q' : Http.Request} (hq' : n.inquiry? topic = some q') : q ≠ .http q' := by
  rintro rfl
  have hother : ∀ topic', n.inquiry? topic' = some q' → topic' ≠ .header ∧ topic' ≠ .finality := by
    intro topic' hq
    rw [Node.inquiry_injective hq hq']
    rcases htopic with rfl | rfl <;> exact ⟨by decide, by decide⟩
  cases hasks with
  | genesis _ => rcases hm with hm | hm <;> cases hm
  | spec _ _ => rcases hm with hm | hm <;> cases hm
  | header _ hq => exact (hother _ hq).1 rfl
  | finality _ hq => exact (hother _ hq).2 rfl

/-- A call that began with a timing in the place stays one that sends no request for it. -/
theorem Late.step {t : Chain.Timing} (hl : x.Late n t) (h : x.Sound n kept) (hkept : kept = some t)
    (hx : Step kept x kept' x') : x'.Late n t := by
  cases hx with
  | finish call acts r => exact ⟨hl.phase, hl.spares⟩
  | drop call acts p => exact ⟨hl.phase, hl.spares⟩
  | @act _ call acts p p' act hp hk =>
    constructor
    case phase =>
      have hphase := phase_append call acts act (.underWay p) (.underWay p')
      cases hp with
      | write line p =>
        rw [hphase]
        exact hl.phase
      | send q next =>
        rw [hphase]
        exact hl.phase
      | hear q next a =>
        obtain ⟨hasks, _⟩ := h.course
        rw [hphase]
        simp only [Act.exchanges, List.foldl_cons, List.foldl_nil]
        apply Or.inr
        rw [Phase.next_eq_knowing_iff hasks]
        rcases hl.phase with hm | hm
        · -- it looks for the timing that is kept, and finds it
          rw [hm] at hasks
          cases hasks
          apply Or.inr
          cases hk with
          | look =>
            rw [hkept]
            exact .look
          | other _ hlook _ => exact absurd rfl hlook
        · exact .inl hm
    case spares =>
      intro topic q htopic hq hmem
      rcases List.mem_append.mp hmem with hmem | hmem
      · exact hl.spares topic q htopic hq hmem
      · rw [← List.mem_singleton.mp hmem] at hp
        cases hp with
        | send _ next =>
          obtain ⟨hasks, _⟩ := h.course
          exact asks_ne_of_late hasks hl.phase htopic hq rfl

/-- A late call reports the timing that was kept when it began. -/
theorem Late.goesBy {t : Chain.Timing} (hl : x.Late n t) (h : x.Sound n kept) : x.GoesBy n t := by
  have hcourse := h.course
  -- in its last phase it knows one timing, and that can only be `t`
  have hlast : ∀ t', x.phase = .knowing t' → t' = t := by
    intro t' hm
    rcases hl.phase with hm' | hm' <;> rw [hm] at hm' <;> cases hm'
    rfl
  refine ⟨hl.spares, ?_, ?_⟩
  · intro r hr
    rw [hr] at hcourse
    cases r with
    | ok t' =>
      have hm : x.phase = .knowing t' := hcourse
      rw [hlast t' hm]
    | error e =>
      have hfails : x.phase.Fails n := hcourse
      rcases hl.phase with hm | hm <;> rw [hm] at hfails <;> cases hfails
  · intro head hr
    rw [hr] at hcourse
    obtain ⟨t', hm, hepoch⟩ := hcourse
    rw [hepoch, hlast t' hm]

end Visit

end OracleDuty.Beacon
