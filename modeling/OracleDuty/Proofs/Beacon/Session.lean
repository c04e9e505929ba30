import Mathlib.Logic.Relation
import OracleDuty.Proofs.Beacon.Visit
/-!
Sessions: any number of calls to one node, carried out one act at a time in any order, while the node answers as
it likes.

Main statements: `Session.Sound.steps`, `Session.Steps.late` and `Session.Steps.succeeds`.
-/
namespace OracleDuty.Beacon

open Program

-- the text of a locator is never looked into
attribute [local irreducible] Node.locator?

variable {n : Node}

/-! ### Sessions -/

/-- A node with the timing that is kept for it, and all calls in the order of their beginnings. -/
structure Session where
  kept : Option Chain.Timing
  visits : List Visit

namespace Session

def fresh : Session := ⟨none, []⟩

inductive Step (n : Node) : Session → Session → Prop where
  | call (s : Session) (c : Call) :
    Step n s ⟨s.kept, s.visits ++ [Visit.begun n c]⟩
  | visit {s : Session} {i : Nat} {x x' : Visit} {kept' : Option Chain.Timing}
    (hi : s.visits[i]? = some x) (hx : Visit.Step s.kept x kept' x') :
    Step n s ⟨kept', s.visits.set i x'⟩

/-- Any number of steps. -/
abbrev Steps (n : Node) : Session → Session → Prop := Relation.ReflTransGen (Step n)

end Session

namespace Session

variable {s s' : Session}

structure Sound (n : Node) (s : Session) : Prop where
  visits : ∀ x ∈ s.visits, Visit.Sound n s.kept x
  stored : s.kept.isSome = true → ∃ x ∈ s.visits, Visit.Stores x

theorem sound_fresh (n : Node) : fresh.Sound n where
  visits := by simp [fresh]
  stored := by simp [fresh]

/-- What holds of every session is kept by a step of any of its calls, and by the beginning of a call. -/
theorem Sound.step (h : s.Sound n) (hs : Step n s s') : s'.Sound n := by
  cases hs with
  | call c =>
    constructor
    case visits =>
      intro x hx
      rcases List.mem_append.mp hx with hx | hx
      · exact h.visits x hx
      · rw [List.mem_singleton.mp hx]
        exact Visit.sound_begun n s.kept c
    case stored =>
      intro hkept
      obtain ⟨x, hx, hstores⟩ := h.stored hkept
      exact ⟨x, List.mem_append_left _ hx, hstores⟩
  | @visit i x x' kept' hi hx =>
    obtain ⟨hlt, hget⟩ := List.getElem?_eq_some_iff.mp hi
    have hmem : x ∈ s.visits := List.mem_of_getElem? hi
    have hmem' : x' ∈ s.visits.set i x' := List.mem_set hlt x'
    constructor
    case visits =>
      intro y hy
      rcases List.mem_or_eq_of_mem_set hy with hy | rfl
      · exact (h.visits y hy).mono hx.mono
      · exact (h.visits x hmem).step hx
    case stored =>
      intro hkept
      -- the place was filled before, by a call that may be the one that goes on, or it is filled now
      rcases hx.stores.2 hkept with hkept | hstores
      · obtain ⟨y, hy, hstores⟩ := h.stored hkept
        obtain ⟨j, hj⟩ := List.mem_iff_getElem?.mp hy
        by_cases hji : i = j
        · subst hji
          rw [hi] at hj
          cases hj
          exact ⟨x', hmem', hx.stores.1 hstores⟩
        · have hset : (s.visits.set i x')[j]? = some y := by
            rw [List.getElem?_set_ne hji]
            exact hj
          exact ⟨y, List.mem_of_getElem? hset, hstores⟩
      · exact ⟨x', hmem', hstores⟩

theorem Sound.steps (h : s.Sound n) (hs : Steps n s s') : s'.Sound n := by
  induction hs with
  | refl => exact h
  | tail _ hstep ih => exact ih.step hstep

theorem Steps.kept (h : Steps n s s') {t : Chain.Timing} (ht : s.kept = some t) : s'.kept = some t := by
  induction h with
  | refl => exact ht
  | tail _ hstep ih =>
    cases hstep with
    | call c => exact ih
    | visit hi hx => exact hx.mono t ih

theorem Step.length_le (h : Step n s s') : s.visits.length ≤ s'.visits.length := by
  cases h with
  | call c => simp
  | visit hi hx => simp

/-- Whatever calls were under way, those that begin when a timing is kept are late. -/
theorem Steps.late (h : Steps n s s') (hs : s.Sound n) {t : Chain.Timing} (ht : s.kept = some t) :
    s.visits.length ≤ s'.visits.length ∧
      ∀ i x, s.visits.length ≤ i → s'.visits[i]? = some x → Visit.Late n t x := by
  induction h with
  | refl =>
    refine ⟨Nat.le_refl _, fun i x hi hx => ?_⟩
    rw [List.getElem?_eq_none hi] at hx
    cases hx
  | @tail s₁ s₂ hsteps hstep ih =>
    obtain ⟨hlength, hlate⟩ := ih
    refine ⟨Nat.le_trans hlength hstep.length_le, fun i x hi hx => ?_⟩
    have hsound := hs.steps hsteps
    have hkept := Steps.kept hsteps ht
    cases hstep with
    | call c =>
      rcases Nat.lt_or_ge i s₁.visits.length with hlt | hge
      · rw [List.getElem?_append_left hlt] at hx
        exact hlate i x hi hx
      · rw [List.getElem?_append_right hge] at hx
        have hmem := List.mem_of_getElem? hx
        rw [List.mem_singleton.mp hmem]
        exact Visit.late_begun n t c
    | @visit j y y' kept' hj hy =>
      by_cases hji : j = i
      · subst hji
        have hy' : (s₁.visits.set j y')[j]? = some y' :=
          List.getElem?_set_self (List.getElem?_eq_some_iff.mp hj).1
        rw [hy'] at hx
        cases hx
        exact (hlate j y hi hj).step (hsound.visits y (List.mem_of_getElem? hj)) hkept hy
      · rw [List.getElem?_set_ne hji] at hx
        exact hlate i x hi hx

/-! ### Calls on their own -/

inductive Keepings : Option Chain.Timing → List (Exchange Wire.Request Wire.Answer) →
    Option Chain.Timing → Prop where
  | nil (kept : Option Chain.Timing) : Keepings kept [] kept
  | cons {kept kept₁ kept' : Option Chain.Timing} {q : Wire.Request} {a : Wire.Answer q}
    {t : List (Exchange Wire.Request Wire.Answer)} (h : Keeping kept (.hear q a) kept₁)
    (ht : Keepings kept₁ t kept') : Keepings kept (⟨q, a⟩ :: t) kept'

/-- A call may act whenever it can, and it is still there after that. -/
theorem Step.acts {kept kept' : Option Chain.Timing} {visits : List Visit} {i : Nat} {c : Call}
    {acts : List (Act Wire.Request Wire.Answer)} {act : Act Wire.Request Wire.Answer}
    {p p' : Progress Wire.Request Wire.Answer Result} (hi : visits[i]? = some ⟨c, acts, .underWay p⟩)
    (hp : p.Moves act (some p')) (hk : Keeping kept act kept') :
    Step n ⟨kept, visits⟩ ⟨kept', visits.set i ⟨c, acts ++ [act], .underWay p'⟩⟩ ∧
      (visits.set i ⟨c, acts ++ [act], .underWay p'⟩)[i]? = some ⟨c, acts ++ [act], .underWay p'⟩ :=
  ⟨.visit hi (.act hp hk), List.getElem?_set_self (List.getElem?_eq_some_iff.mp hi).1⟩

/-- A call may go along any path of its course whose answers fit what is kept, while nothing else happens. -/
theorem Steps.along {p r : Wire.Course Result} {t : List (Exchange Wire.Request Wire.Answer)} (ht : p.Path t r)
    {kept kept' : Option Chain.Timing} (hk : Keepings kept t kept') {visits : List Visit} {i : Nat} {c : Call}
    {acts : List (Act Wire.Request Wire.Answer)}
    (hi : visits[i]? = some ⟨c, acts, .underWay (.ready p)⟩) :
    ∃ acts', Steps n ⟨kept, visits⟩ ⟨kept', visits.set i ⟨c, acts ++ acts', .underWay (.ready r)⟩⟩ ∧
      acts'.flatMap Act.exchanges = t := by
  induction ht generalizing kept visits acts with
  | refl p =>
    cases hk
    obtain ⟨hlt, hx⟩ := List.getElem?_eq_some_iff.mp hi
    refine ⟨[], ?_, rfl⟩
    rw [List.append_nil, ← hx, List.set_getElem_self]
  | @note line p r t h ih =>
    obtain ⟨hwrite, hi'⟩ := Step.acts (n := n) hi (.write line p) (.write kept line)
    obtain ⟨acts', hsteps, hacts⟩ := ih hk hi'
    rw [List.set_set, List.append_assoc] at hsteps
    exact ⟨_, .head hwrite hsteps, hacts⟩
  | @ask q next a r t h ih =>
    cases hk with
    | cons hk ht =>
      obtain ⟨hsend, hi'⟩ := Step.acts (n := n) hi (.send q next) (.send kept q)
      obtain ⟨hhear, hi''⟩ := Step.acts (n := n) hi' (.hear q next a) hk
      obtain ⟨acts', hsteps, hacts⟩ := ih ht hi''
      simp only [List.set_set, List.append_assoc] at hsteps hhear
      refine ⟨_, .head hsend (.head hhear hsteps), ?_⟩
      rw [← hacts]
      rfl

/-- A call that has come to its end returns. -/
theorem Steps.returns {p : Wire.Course Result} {r : Result} {t : List (Exchange Wire.Request Wire.Answer)}
    (ht : p.Ends t r) {kept kept' : Option Chain.Timing} (hk : Keepings kept t kept') {visits : List Visit}
    {i : Nat} {c : Call} {acts : List (Act Wire.Request Wire.Answer)}
    (hi : visits[i]? = some ⟨c, acts, .underWay (.ready p)⟩) :
    ∃ acts', Steps n ⟨kept, visits⟩ ⟨kept', visits.set i ⟨c, acts ++ acts', .returned r⟩⟩ ∧
      acts'.flatMap Act.exchanges = t := by
  obtain ⟨acts', hsteps, hacts⟩ := Steps.along (n := n) ht hk hi
  have hset := List.getElem?_set_self (a := (⟨c, acts ++ acts', .underWay (.ready (.done r))⟩ : Visit))
    (List.getElem?_eq_some_iff.mp hi).1
  have hstep : Step n ⟨kept', visits.set i _⟩ _ := .visit hset (.finish kept' c _ r)
  rw [List.set_set] at hstep
  exact ⟨acts', hsteps.tail hstep, hacts⟩

/-! ### Single calls -/

structure Fetched (n : Node) (genesis spec : Http.Request) (a b : Except Http.Failure Http.Response)
    (t : Chain.Timing) : Prop where
  genesis : n.inquiry? .genesis = some genesis
  spec : n.inquiry? .spec = some spec
  start : yields genesisTime? a = some t.genesisTime
  lengths : yields slotLengths? b = some (t.secondsPerSlot, t.slotsPerEpoch)

theorem timing_ends_of_kept (t : Chain.Timing) : n.timing.run.Ends [⟨.keptTiming, some t⟩] (.ok t) :=
  ends_run_bind.mpr ⟨some t, [⟨.keptTiming, some t⟩], [], rfl, .ask (.refl _), .refl _⟩

/-- Where nothing is kept, a timing is fetched; what is answered when it is to be kept is the result. -/
theorem timing_ends_of_fetched {genesis spec : Http.Request} {a b : Except Http.Failure Http.Response}
    {t : Chain.Timing} (h : Fetched n genesis spec a b t) (t' : Chain.Timing) :
    n.timing.run.Ends [⟨.keptTiming, none⟩, ⟨.http genesis, a⟩, ⟨.http spec, b⟩, ⟨.keepTiming t, t'⟩]
      (.ok t') := by
  have hgenesis := Node.require_ends h.genesis "get_genesis" h.start
  have hspec := Node.require_ends h.spec "get_spec" h.lengths
  refine ends_run_bind.mpr ⟨none, [⟨.keptTiming, none⟩], _, rfl, .ask (.refl _), ?_⟩
  refine ends_run_bind.mpr ⟨t.genesisTime, [⟨.http genesis, a⟩], _, rfl, hgenesis, ?_⟩
  refine ends_run_bind.mpr ⟨(t.secondsPerSlot, t.slotsPerEpoch), [⟨.http spec, b⟩], _, rfl, hspec, ?_⟩
  exact .ask (.refl _)

theorem timing_course_ends {t : List (Exchange Wire.Request Wire.Answer)} {r : Except Error Chain.Timing}
    (h : n.timing.run.Ends t r) : (Call.timing.course n).Ends t (.timing r) :=
  ends_bind.mpr ⟨r, t, [], (List.append_nil t).symm, h, .refl _⟩

/-- What is heard of a request over the web leaves the place as it is. -/
theorem keepings_web {kept kept' : Option Chain.Timing} (q : Http.Request)
    (a : Except Http.Failure Http.Response) {t : List (Exchange Wire.Request Wire.Answer)}
    (h : Keepings kept t kept') : Keepings kept (⟨.http q, a⟩ :: t) kept' := by
  have hother : Keeping kept (.hear (.http q) a) kept := by
    apply Keeping.other
    · intro h
      cases h
    · intro t h
      cases h
  exact .cons hother h

/-- The call that has just begun. -/
theorem getElem?_new (visits : List Visit) (x : Visit) : (visits ++ [x])[visits.length]? = some x := by
  rw [List.getElem?_append_right (Nat.le_refl _), Nat.sub_self]
  rfl

theorem set_new (visits : List Visit) (x y : Visit) : (visits ++ [x]).set visits.length y = visits ++ [y] := by
  rw [List.set_append_right _ _ (Nat.le_refl _), Nat.sub_self]
  rfl

/-- Whatever has happened before, a new call succeeds when its own two requests are answered well. -/
theorem Steps.succeeds {genesis spec : Http.Request} {a b : Except Http.Failure Http.Response}
    {t : Chain.Timing} (h : Fetched n genesis spec a b t) (s : Session) :
    ∃ s' y, Steps n s s' ∧ s'.visits = s.visits ++ [y] ∧ y.call = .timing ∧
      y.standing = .returned (.timing (.ok (s.kept.getD t))) := by
  have hcall : Step n s _ := .call s .timing
  have hnew := getElem?_new s.visits (Visit.begun n .timing)
  cases hkept : s.kept with
  | some t₀ =>
    have hends := timing_course_ends (timing_ends_of_kept (n := n) t₀)
    obtain ⟨acts, hsteps, _⟩ := Steps.returns (n := n) hends (.cons (.look (some t₀)) (.nil _)) hnew
    rw [set_new] at hsteps
    rw [hkept] at hcall
    exact ⟨_, _, .head hcall hsteps, rfl, rfl, rfl⟩
  | none =>
    have hends := timing_course_ends (timing_ends_of_fetched h t)
    have hkeepings : Keepings none [⟨.keptTiming, none⟩, ⟨.http genesis, a⟩, ⟨.http spec, b⟩,
        ⟨.keepTiming t, t⟩] (some t) :=
      .cons (.look none) (keepings_web _ _ (keepings_web _ _ (.cons (.keep none t) (.nil _))))
    obtain ⟨acts, hsteps, _⟩ := Steps.returns (n := n) hends hkeepings hnew
    rw [set_new] at hsteps
    rw [hkept] at hcall
    exact ⟨_, _, .head hcall hsteps, rfl, rfl, rfl⟩

end Session

/-! ### Two calls at once -/

/-- Two calls fetch a timing each before any is kept: the one that is stored first is what both report. -/
theorem Session.Steps.race {genesis spec : Http.Request} {a b a' b' : Except Http.Failure Http.Response}
    {t t' : Chain.Timing} (h : Session.Fetched n genesis spec a b t)
    (h' : Session.Fetched n genesis spec a' b' t') :
    ∃ x y : Visit, Session.Steps n Session.fresh ⟨some t', [x, y]⟩ ∧
      x.standing = .returned (.timing (.ok t')) ∧ y.standing = .returned (.timing (.ok t')) ∧
      x.heard = [⟨.keptTiming, none⟩, ⟨.http genesis, a⟩, ⟨.http spec, b⟩, ⟨.keepTiming t, t'⟩] ∧
      y.heard = [⟨.keptTiming, none⟩, ⟨.http genesis, a'⟩, ⟨.http spec, b'⟩, ⟨.keepTiming t', t'⟩] := by
  have hfirst := Session.timing_course_ends (Session.timing_ends_of_fetched h t')
  have hsecond := Session.timing_course_ends (Session.timing_ends_of_fetched h' t')
  -- the first call stops short of storing what it has fetched
  have hsplit : ∃ m, (Call.timing.course n).Path
      [⟨.keptTiming, none⟩, ⟨.http genesis, a⟩, ⟨.http spec, b⟩] m ∧
      m.Ends [⟨.keepTiming t, t'⟩] (.timing (.ok t')) := Path.split hfirst
  obtain ⟨m, hfetch, hstore⟩ := hsplit
  have hcalls : Session.Steps n Session.fresh ⟨none, [Visit.begun n .timing, Visit.begun n .timing]⟩ :=
    .tail (.single (.call Session.fresh .timing)) (.call _ .timing)
  have hfirst₀ : [Visit.begun n .timing, Visit.begun n .timing][0]? = some (Visit.begun n .timing) := rfl
  obtain ⟨acts, hsteps, hacts⟩ := Session.Steps.along (n := n) hfetch
    (.cons (.look none) (Session.keepings_web _ _ (Session.keepings_web _ _ (.nil none)))) hfirst₀
  have hsecond₀ : [(⟨.timing, [] ++ acts, .underWay (.ready m)⟩ : Visit), Visit.begun n .timing][1]? =
      some (Visit.begun n .timing) := rfl
  obtain ⟨acts', hsteps', hacts'⟩ := Session.Steps.returns (n := n) hsecond
    (.cons (.look none) (Session.keepings_web _ _ (Session.keepings_web _ _
      (.cons (.keep none t') (.nil _))))) hsecond₀
  have hfirst₁ : [(⟨.timing, [] ++ acts, .underWay (.ready m)⟩ : Visit),
      ⟨.timing, [] ++ acts', .returned (.timing (.ok t'))⟩][0]? =
        some ⟨.timing, [] ++ acts, .underWay (.ready m)⟩ := rfl
  obtain ⟨acts'', hsteps'', hacts''⟩ := Session.Steps.returns (n := n) hstore
    (.cons (.keep (some t') t) (.nil _)) hfirst₁
  refine ⟨_, _, (hcalls.trans hsteps).trans (hsteps'.trans hsteps''), rfl, rfl, ?_, ?_⟩
  · simp [Visit.heard, hacts, hacts'']
  · simp [Visit.heard, hacts']

end OracleDuty.Beacon
