import OracleDuty.Proofs.Beacon.Inquiry
import OracleDuty.Proofs.Process
/-!
The calls by which the timing is asked for: what each asks at every point of its way, and what the answers
give it.

Main statement: `course_follows`.
-/
namespace OracleDuty.Beacon

open Program

-- the text of a locator is never looked into
attribute [local irreducible] Node.locator?

/-! ### Calls -/

inductive Call where
  | timing
  | head

inductive Result where
  | timing (r : Except Error Chain.Timing)
  | head (r : Except Error Chain.Head)

def Call.course (n : Node) : Call → Wire.Course Result
  | timing => n.timing.run.bind fun r => .done (.timing r)
  | head => n.head.run.bind fun r => .done (.head r)

inductive Phase where
  | opening
  | asking
  | asked (genesis : UInt64)
  | fetched (t : Chain.Timing)
  | knowing (t : Chain.Timing)
  | failed

namespace Phase

inductive Asks (n : Node) : Phase → Wire.Request → Prop where
  | kept : Asks n opening .keptTiming
  | genesis {q : Http.Request} (h : n.inquiry? .genesis = some q) : Asks n asking (.http q)
  | spec {q : Http.Request} (genesis : UInt64) (h : n.inquiry? .spec = some q) :
    Asks n (asked genesis) (.http q)
  | keep (t : Chain.Timing) : Asks n (fetched t) (.keepTiming t)
  | header {q : Http.Request} (t : Chain.Timing) (h : n.inquiry? .header = some q) :
    Asks n (knowing t) (.http q)
  | finality {q : Http.Request} (t : Chain.Timing) (h : n.inquiry? .finality = some q) :
    Asks n (knowing t) (.http q)

def next : Phase → (q : Wire.Request) → Wire.Answer q → Phase
  | opening, .keptTiming, some t => knowing t
  | opening, .keptTiming, none => asking
  | asking, .http _, a =>
    match yields genesisTime? a with
    | some genesis => asked genesis
    | none => failed
  | asked genesis, .http _, a =>
    match yields slotLengths? a with
    | some (seconds, slots) => fetched ⟨genesis, seconds, slots⟩
    | none => failed
  | fetched _, .keepTiming _, t => knowing t
  | m, _, _ => m

def Fails (n : Node) : Phase → Prop
  | asking => n.inquiry? .genesis = none
  | asked _ => n.inquiry? .spec = none
  | failed => True
  | _ => False

def Concludes (n : Node) (m : Phase) : Result → Prop
  | .timing (.ok t) => m = knowing t
  | .timing (.error _) => m.Fails n
  | .head (.ok h) => ∃ t, m = knowing t ∧ h.epoch = h.slot / t.slotsPerEpoch
  | .head (.error _) => m.Fails n ∨ ∃ t, m = knowing t

end Phase

def fetching (n : Node) : Script Wire.Request Wire.Answer Phase := ⟨Phase.Asks n, Phase.next⟩

variable {n : Node}

theorem ask_guides {S : Type} {k : Script Wire.Request Wire.Answer S} {m : S} {ε : Type} {bad : S → Prop}
    {q : Wire.Request} {post : S → Wire.Answer q → Prop} (hasks : k.asks m q)
    (hpost : ∀ a, post (k.next m q a) a) : k.Guides m (Wire.ask q : Wire.Action ε _) bad post :=
  guides_lift.mpr ⟨hasks, hpost⟩

theorem genesis_guides : (fetching n).Guides .asking
    (n.require "get_genesis" "eth/v1/beacon/genesis" genesisTime?) (Phase.Fails n)
    fun m genesis => m = .asked genesis := by
  refine Node.require_guides .genesis rfl (fun q hq => .genesis hq) id ?_ ?_
  · intro q a _ ha
    simp only [fetching, Phase.next, ha]
    trivial
  · intro q a genesis _ ha
    simp only [fetching, Phase.next, ha]

theorem spec_guides (genesis : UInt64) : (fetching n).Guides (.asked genesis)
    (n.require "get_spec" "eth/v1/config/spec" slotLengths?) (Phase.Fails n)
    fun m lengths => m = .fetched ⟨genesis, lengths.1, lengths.2⟩ := by
  refine Node.require_guides .spec rfl (fun q hq => .spec genesis hq) id ?_ ?_
  · intro q a _ ha
    simp only [fetching, Phase.next, ha]
    trivial
  · intro q a lengths _ ha
    simp only [fetching, Phase.next, ha]

/-- The timing is taken from its place, or fetched by two requests and kept. -/
theorem timing_guides : (fetching n).Guides .opening n.timing (Phase.Fails n) fun m t => m = .knowing t := by
  have hgenesis := genesis_guides (n := n)
  have hspec := spec_guides (n := n)
  unfold Node.timing
  generalize n.require "get_genesis" "eth/v1/beacon/genesis" genesisTime? = askGenesis at hgenesis ⊢
  generalize n.require "get_spec" "eth/v1/config/spec" slotLengths? = askSpec at hspec ⊢
  refine guides_bind.mpr (ask_guides Phase.Asks.kept fun kept => ?_)
  cases kept with
  | some t => exact guides_pure.mpr rfl
  | none =>
    refine guides_bind.mpr (hgenesis.mono (fun m hm => hm) ?_)
    rintro _ genesis rfl
    refine guides_bind.mpr ((hspec genesis).mono (fun m hm => hm) ?_)
    rintro _ lengths rfl
    exact ask_guides (Phase.Asks.keep _) fun t => rfl

/-- The epoch of the head is told by the timing that the call has got hold of. -/
theorem head_guides : (fetching n).Guides .opening n.head
    (fun m => m.Fails n ∨ ∃ t, m = .knowing t)
    fun m h => ∃ t, m = .knowing t ∧ h.epoch = h.slot / t.slotsPerEpoch := by
  have htiming := timing_guides (n := n)
  have hheader : ∀ t, (fetching n).Guides (.knowing t)
      (n.require "get_head_header" "eth/v1/beacon/headers/head" headSlot?)
      (fun m => m = .knowing t) fun m _ => m = .knowing t := fun t =>
    Node.require_guides .header rfl (fun q hq => .header t hq) (fun _ => rfl) (fun _ _ _ _ => rfl)
      fun _ _ _ _ _ => rfl
  have hfinality : ∀ t, (fetching n).Guides (.knowing t)
      (n.require "get_finality_checkpoints" "eth/v1/beacon/states/head/finality_checkpoints"
        finalizedEpoch?) (fun m => m = .knowing t) fun m _ => m = .knowing t := fun t =>
    Node.require_guides .finality rfl (fun q hq => .finality t hq) (fun _ => rfl) (fun _ _ _ _ => rfl)
      fun _ _ _ _ _ => rfl
  unfold Node.head
  generalize n.timing = askTiming at htiming ⊢
  generalize n.require "get_head_header" "eth/v1/beacon/headers/head" headSlot? = askHeader at hheader ⊢
  generalize n.require "get_finality_checkpoints" "eth/v1/beacon/states/head/finality_checkpoints"
    finalizedEpoch? = askFinality at hfinality ⊢
  refine guides_bind.mpr (htiming.mono (fun m hm => .inl hm) ?_)
  rintro _ t rfl
  refine guides_bind.mpr ((hheader t).mono (fun m hm => .inr ⟨t, hm⟩) ?_)
  rintro _ slot rfl
  refine guides_bind.mpr ((hfinality t).mono (fun m hm => .inr ⟨t, hm⟩) ?_)
  rintro _ finalized rfl
  exact guides_pure.mpr ⟨t, rfl, rfl⟩

/-- Every call follows the script, and ends where it has its result. -/
theorem course_follows (c : Call) : (c.course n).Follows (fetching n) .opening (Phase.Concludes n) := by
  cases c with
  | timing =>
    refine follows_bind.mpr (Follows.mono timing_guides ?_)
    rintro m (e | t) h
    · exact h
    · exact h
  | head =>
    refine follows_bind.mpr (Follows.mono head_guides ?_)
    rintro m (e | h) hm
    · exact hm
    · exact hm

inductive Gives (t : Chain.Timing) : Act Wire.Request Wire.Answer → Prop where
  | look : Gives t (.hear .keptTiming (some t))
  | keep (t' : Chain.Timing) : Gives t (.hear (.keepTiming t') t)

inductive Misses (n : Node) : Act Wire.Request Wire.Answer → Prop where
  | genesis {q : Http.Request} {a : Except Http.Failure Http.Response}
    (hq : n.inquiry? .genesis = some q) (ha : yields genesisTime? a = none) : Misses n (.hear (.http q) a)
  | spec {q : Http.Request} {a : Except Http.Failure Http.Response}
    (hq : n.inquiry? .spec = some q) (ha : yields slotLengths? a = none) : Misses n (.hear (.http q) a)

namespace Phase

variable {m : Phase} {q : Wire.Request} {a : Wire.Answer q}

/-- A call knows a timing just when it was given one, and does not forget it. -/
theorem next_eq_knowing_iff (h : m.Asks n q) {t : Chain.Timing} :
    m.next q a = knowing t ↔ m = knowing t ∨ Gives t (.hear q a) := by
  have hweb : ∀ {q : Http.Request} {a : Wire.Answer (.http q)}, ¬Gives t (.hear (.http q) a) := by
    intro q a hg
    cases hg
  -- only the answers to two requests give a timing: to the look at the place and to the filling of it
  cases h with
  | kept =>
    cases a with
    | none =>
      have hg : ¬Gives t (.hear .keptTiming none) := by
        intro hg
        cases hg
      simp [next, hg]
    | some t' =>
      have hg : Gives t (.hear .keptTiming (some t')) ↔ t' = t := by
        constructor
        · intro hg
          cases hg
          rfl
        · rintro rfl
          exact .look
      simp [next, hg]
  | genesis hq =>
    cases hy : yields genesisTime? a <;> simp [next, hy, hweb]
  | spec genesis hq =>
    cases hy : yields slotLengths? a <;> simp [next, hy, hweb]
  | keep t' =>
    have hg : Gives t (.hear (.keepTiming t') a) ↔ a = t := by
      constructor
      · intro hg
        cases hg
        rfl
      · rintro rfl
        exact .keep t'
    simp [next, hg]
  | header t' hq => simp [next, hweb]
  | finality t' hq => simp [next, hweb]

/-- A call fails just by an answer from which its request cannot be read. -/
theorem next_eq_failed_iff (h : m.Asks n q) : m.next q a = failed ↔ Misses n (.hear q a) := by
  -- an answer misses if the request is one of the two and nothing is read from it
  have hmiss : ∀ {topic : Topic} {q : Http.Request} {a : Except Http.Failure Http.Response},
      n.inquiry? topic = some q → (Misses n (.hear (.http q) a) ↔
        topic = .genesis ∧ yields genesisTime? a = none ∨ topic = .spec ∧ yields slotLengths? a = none) := by
    intro topic q a hq
    constructor
    · intro hm
      cases hm with
      | genesis hq' ha => exact .inl ⟨Node.inquiry_injective hq hq', ha⟩
      | spec hq' ha => exact .inr ⟨Node.inquiry_injective hq hq', ha⟩
    · rintro (⟨rfl, ha⟩ | ⟨rfl, ha⟩)
      · exact .genesis hq ha
      · exact .spec hq ha
  cases h with
  | kept =>
    have hm : ¬Misses n (.hear .keptTiming a) := by
      intro hm
      cases hm
    cases a <;> simp [next, hm]
  | genesis hq =>
    rw [hmiss hq]
    cases hy : yields genesisTime? a <;> simp [next, hy]
  | spec genesis hq =>
    rw [hmiss hq]
    cases hy : yields slotLengths? a <;> simp [next, hy]
  | keep t =>
    have hm : ¬Misses n (.hear (.keepTiming t) a) := by
      intro hm
      cases hm
    simp [next, hm]
  | header t hq =>
    rw [hmiss hq]
    simp [next]
  | finality t hq =>
    rw [hmiss hq]
    simp [next]

end Phase

end OracleDuty.Beacon
