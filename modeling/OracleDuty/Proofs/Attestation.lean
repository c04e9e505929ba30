import OracleDuty.Proofs.PublishedTree
/-!
At most one attestation: whatever order things happen in and whatever fails, no snapshot of an interval and
no price of a block is accepted twice.

An execution reads the flag of its attestation long before it submits. It may rely on what it has read
because no other execution can submit the same attestation meanwhile: those in other lanes submit
attestations of another kind, and its own lane is taken.
-/
namespace OracleDuty

open Duty

namespace Attestation

def rewardsCleared : SubmitRewards.Phase → Bool
  | .creating (.packedTree _) => true
  | .writing (.packedTree _) => true
  | .placing (.packedTree _) => true
  | .uploadingTree _ => true
  | .submitting .. => true
  | _ => false

def cleared? : Role → Option Ticket
  | .rewards j m =>
    if rewardsCleared m then some (.snapshot (RewardsTree.word j.interval.index)) else none
  | .prices j (.checkingOthers price) => some (.price (RewardsTree.word j.block) price)
  | .prices j (.submitting price) => some (.price (RewardsTree.word j.block) price)
  | .prices .. => none

def Indexed : Role → Prop
  | .rewards j m => m.Indexed j.interval.index
  | .prices .. => True

/-- Only executions in the lane of an attestation go on to submit it. -/
theorem lane_of_cleared {m : Role} {τ : Ticket} (h : cleared? m = some τ) : τ.lane = m.lane := by
  cases m with
  | rewards j m =>
    simp only [cleared?] at h
    split at h <;> cases h
    rfl
  | prices j m =>
    cases m <;> simp only [cleared?] at h <;> cases h <;> rfl

variable {s : Settings}

/-- Only what was cleared is submitted, and then it is cleared no longer. -/
theorem cleared_of_submit {m : Role} {call : Call} {options : TxOptions}
    (hq : (roleScript s).asks m (.submit call options)) (hi : Indexed m) :
    cleared? m = call.ticket? ∧ ∀ a, cleared? ((roleScript s).next m (.submit call options) a) = none := by
  cases m with
  | rewards j m =>
    obtain ⟨t, cid, rfl, rfl, rfl⟩ := SubmitRewards.asks_submit hq
    have ht : t.header.index = j.interval.index := hi
    constructor
    · simp only [cleared?, rewardsCleared, if_true, Call.ticket?, RewardsTree.submission, ht]
    · rintro (e | hash) <;> rfl
  | prices j m =>
    obtain ⟨price, rfl, rfl, rfl⟩ := SubmitPrices.asks_submit hq
    constructor
    · rfl
    · rintro (e | hash) <;> rfl

/-- An attestation stays cleared, or it is cleared by reading that it is not recorded. -/
theorem cleared_next {m : Role} {q : Request} {a : Answer q} {τ : Ticket}
    (hq : (roleScript s).asks m q) (h : cleared? ((roleScript s).next m q a) = some τ) :
    cleared? m = some τ ∨ (⟨q, a⟩ : Exchange Request Answer) = ⟨.flag (τ.key s.node) none, .ok false⟩ := by
  -- every phase that is cleared comes after one that is, except for the answer of the registry
  cases m with
  | rewards j m =>
    have hgo := SubmitRewards.goes_next hq a
    change cleared? (.rewards j ((SubmitRewards.script s j).next m q a)) = some τ at h
    generalize (SubmitRewards.script s j).next m q a = m' at hgo h
    cases hgo with
    | found =>
      simp only [SubmitRewards.Phase.attesting] at h
      split at h <;> cases h
    | unrecorded t =>
      cases h
      exact .inr rfl
    | placed e =>
      cases e with
      | packedTree t => exact .inl h
      | performance r =>
        simp only [SubmitRewards.Phase.stored] at h
        split at h <;> cases h
      | packedPerformance r => cases h
      | tree t =>
        simp only [SubmitRewards.Phase.stored, SubmitRewards.Phase.attesting] at h
        split at h <;> cases h
    | uploaded t cid => exact .inl h
    | created e => cases e <;> exact .inl h
    | written e => cases e <;> exact .inl h
    | _ => cases h
  | prices j m =>
    cases m with
    | observing =>
      obtain ⟨pool, _, rfl⟩ := Option.map_eq_some_iff.mp hq
      rcases a with e | cumulatives
      · cases h
      · simp only [roleScript, SubmitPrices.script, SubmitPrices.Phase.next] at h
        split at h <;> cases h
    | checking price =>
      cases hq
      rcases a with e | _ | _
      · cases h
      · cases h
        exact .inr rfl
      · cases h
    | checkingOthers price =>
      cases hq
      rcases a with e | _ | _
      · cases h
      · exact .inl h
      · exact .inl h
    | submitting price =>
      cases hq
      rcases a with e | hash <;> cases h
    | ended => cases hq

/-- An execution stays with the interval of its job as long as the trees that it is given do. -/
theorem indexed_next {m : Role} {q : Request} {a : Answer q} {number : Option Nat}
    {log : List (Event Request Answer)} (hi : KeepsIndices s.store (.heard number q a :: log))
    (hq : (roleScript s).asks m q) (hm : Indexed m) : Indexed ((roleScript s).next m q a) := by
  cases m with
  | prices j m => trivial
  | rewards j m =>
    refine (SubmitRewards.goes_next hq a).indexed hm ?_
    cases m with
    | reading =>
      cases hq
      rcases a with fault | content
      · trivial
      · exact fun t ht => hi.stored List.mem_cons_self ht
    | generating =>
      cases hq
      rcases a with e | reply
      · trivial
      · exact hi.generated List.mem_cons_self
    | ended => nomatch hq
    | _ =>
      cases hq
      trivial

def won? : Act Request Answer → Option Ticket
  | .hear q a => Ticket.ofAnswer? q a
  | _ => none

/-- An act raises the count of an attestation only by winning it. -/
theorem accepted_events (τ : Ticket) (number : Option Nat) (act : Act Request Answer)
    (log : List (Event Request Answer)) :
    accepted τ (act.events number ++ log) = accepted τ log + if won? act = some τ then 1 else 0 := by
  cases act with
  | hear q a =>
    simp only [accepted, Act.events, List.singleton_append, List.countP_cons, decide_eq_true_eq]
    rfl
  | write line => rfl
  | send q => rfl
  | panic q reason => rfl

@[simp] theorem accepted_started (τ : Ticket) (n : Nat) (b : Background Request Answer)
    (log : List (Event Request Answer)) : accepted τ (.started n b :: log) = accepted τ log := by
  simp [accepted, Event.accepted?]

/-- Nothing is won but by a submission that is accepted. -/
theorem won_of_about {kind : Request → Prop} {act : Act Request Answer} {τ : Ticket}
    (h : act.About kind) (hτ : won? act = some τ) :
    ∃ call options hash, act = .hear (.submit call options) (.ok hash) ∧ kind (.submit call options) ∧
      call.ticket? = some τ := by
  cases act with
  | hear q a =>
    simp only [won?, Ticket.ofAnswer?] at hτ
    split at hτ
    · exact ⟨_, _, _, rfl, h, hτ⟩
    · cases hτ
  | _ => nomatch hτ

def Once (node : Address) {σ : Type} (flag : σ → Digest → Bool) (log : List (Event Request Answer))
    (st : σ) : Prop :=
  ∀ τ, accepted τ log ≤ 1 ∧ (0 < accepted τ log → flag st (τ.key node) = true)

structure Clears (log : List (Event Request Answer)) (x : Actor Role) : Prop where
  lane : x.lane = x.stage.lane
  indexed : Indexed x.stage
  fresh : ∀ τ, cleared? x.stage = some τ → accepted τ log = 0

variable {σ : Type} {w : World σ Request Answer} {flag : σ → Digest → Bool} {st st' : σ}
  {log : List (Event Request Answer)}

/-- An act that has only new attestations accepted keeps every attestation to one. -/
theorem Once.events {act : Act Request Answer} (h : Once s.node flag log st)
    (hw : RecordsAttestations s.node w flag) (hm : w.Moves st act st') (number : Option Nat)
    (hnew : ∀ τ, won? act = some τ → accepted τ log = 0) :
    Once s.node flag (act.events number ++ log) st' := by
  intro τ
  rw [accepted_events]
  by_cases hτ : won? act = some τ
  · -- what is accepted is recorded at once
    rw [hnew τ hτ, if_pos hτ]
    refine ⟨Nat.le_refl 1, fun _ => ?_⟩
    have habout : act.About fun _ => True := by cases act <;> trivial
    obtain ⟨call, options, hash, rfl, _, hc⟩ := won_of_about habout hτ
    cases hm with
    | hear ha => exact hw.submit ha hc
  · rw [if_neg hτ, Nat.add_zero]
    refine ⟨(h τ).1, ?_⟩
    intro hpos
    exact hw.stays hm ((h τ).2 hpos)

/-- What an execution submits was cleared by it, and so was never accepted. -/
theorem Clears.unaccepted {x : Actor Role} (h : Clears log x) {act : Act Request Answer}
    (ha : act.About ((roleScript s).asks x.stage)) {τ : Ticket} (hτ : won? act = some τ) :
    cleared? x.stage = some τ := by
  obtain ⟨call, options, hash, rfl, hq, hc⟩ := won_of_about ha hτ
  rw [(cleared_of_submit hq h.indexed).1, hc]

/-- An execution that reads that its attestation is not recorded may rely on it. -/
theorem Clears.hear {x : Actor Role} {q : Request} {a : Answer q} (h : Clears log x)
    (hI : Once s.node flag log st) (hw : RecordsAttestations s.node w flag)
    {number : Option Nat} (hi : KeepsIndices s.store (.heard number q a :: log))
    (hq : (roleScript s).asks x.stage q) (ha : w.answer q st = (.answer a, st')) :
    Clears (.heard number q a :: log) { x with stage := (roleScript s).next x.stage q a } := by
  constructor
  case lane => rw [lane_next, h.lane]
  case indexed => exact indexed_next hi hq h.indexed
  case fresh =>
    intro τ hτ
    have hlog := accepted_events τ number (.hear q a) log
    have hwon : won? (.hear q a) ≠ some τ := by
      intro hwon
      obtain ⟨call, options, hash, he, hq', _⟩ :=
        won_of_about (show Act.About ((roleScript s).asks x.stage) (.hear q a) from hq) hwon
      cases he
      rw [(cleared_of_submit hq h.indexed).2] at hτ
      cases hτ
    rw [if_neg hwon, Nat.add_zero] at hlog
    change accepted τ ((Act.hear q a).events number ++ log) = 0
    rw [hlog]
    rcases cleared_next hq hτ with hold | hread
    · exact h.fresh τ hold
    · -- the flag was read as unset, and would be set if the attestation had been accepted
      cases hread
      rcases Nat.eq_zero_or_pos (accepted τ log) with h0 | hpos
      · exact h0
      · have hset := (hI τ).2 hpos
        rw [← hw.read ha] at hset
        cases hset

/-- What an execution of another lane wins does not undo what was cleared here. -/
theorem Clears.events {y : Actor Role} (h : Clears log y) {act : Act Request Answer}
    (number : Option Nat) (hother : ∀ τ, won? act = some τ → τ.lane ≠ y.lane) :
    Clears (act.events number ++ log) y := by
  refine ⟨h.lane, h.indexed, ?_⟩
  intro τ hτ
  have hwon : won? act ≠ some τ := by
    intro hwon
    exact hother τ hwon ((lane_of_cleared hτ).trans h.lane.symm)
  rw [accepted_events, if_neg hwon]
  exact h.fresh τ hτ

theorem won_of_mild {act : Act Request Answer} (h : act.About Mild) : won? act = none := by
  cases hτ : won? act with
  | none => rfl
  | some τ =>
    obtain ⟨call, options, hash, _, hm, hc⟩ := won_of_about h hτ
    cases call with
    | submitRate => nomatch hc
    | _ => exact hm.elim

theorem Once.started (h : Once s.node flag log st) (n : Nat) (b : Background Request Answer) :
    Once s.node flag (.started n b :: log) st := by
  intro τ
  rw [accepted_started]
  exact h τ

theorem Clears.started {y : Actor Role} (h : Clears log y) (n : Nat) (b : Background Request Answer) :
    Clears (.started n b :: log) y := by
  refine ⟨h.lane, h.indexed, ?_⟩
  intro τ hτ
  rw [accepted_started]
  exact h.fresh τ hτ

/-- The invariant of all processes, in a world that records attestations. -/
theorem keeps (hw : RecordsAttestations s.node w flag) :
    (discipline s).Keeps w (fun log st => KeepsIndices s.store log → Once s.node flag log st)
      fun log _ x => KeepsIndices s.store log → Clears log x where
  start := by
    intro log st n b m hb hI
    have hcons : ∀ e ∈ log, e ∈ .started n b :: log := fun e he => List.mem_cons_of_mem _ he
    refine ⟨fun hi => (hI (hi.mono hcons)).started n b, fun _ => ?_⟩
    cases hb with
    | rewards j => exact ⟨rfl, trivial, by rintro τ ⟨⟩⟩
    | prices j => exact ⟨rfl, trivial, by rintro τ ⟨⟩⟩
  start_other := by
    intro log st n b y hy hi
    exact (hy (hi.mono fun e he => List.mem_cons_of_mem _ he)).started n b
  lead := by
    intro log st st' act ha hm hI hi
    refine (hI (hi.mono fun e he => List.mem_append_right _ he)).events hw hm none fun τ hτ => ?_
    rw [won_of_mild ha] at hτ
    cases hτ
  lead_other := by
    intro log st st' act y ha hm hI hy hi
    refine (hy (hi.mono fun e he => List.mem_append_right _ he)).events none fun τ hτ => ?_
    rw [won_of_mild ha] at hτ
    cases hτ
  work := by
    intro log st st' act x ha hm hI hx
    have hold : KeepsIndices s.store (act.events (some x.number) ++ log) → KeepsIndices s.store log :=
      fun hi => hi.mono fun e he => List.mem_append_right _ he
    refine ⟨fun hi => (hI (hold hi)).events hw hm _ fun τ hτ => ?_, fun hnp hi => ?_⟩
    · exact (hx (hold hi)).fresh τ ((hx (hold hi)).unaccepted ha hτ)
    · cases hm with
      | write line => exact hx (hold hi)
      | send q =>
        exact (hx (hold hi)).events _ fun τ (hτ : won? (.send q) = some τ) => nomatch hτ
      | hear h => exact (hx (hold hi)).hear (hI (hold hi)) hw hi ha h
      | panic h => exact absurd rfl (hnp _ _)
  work_other := by
    intro log st st' act x y ha hm hI hx hne hy hi
    have hold := hi.mono fun e he => List.mem_append_right (act.events (some x.number)) he
    -- what the one submits is of its own lane, and so is what the other has cleared
    refine (hy hold).events _ fun τ hτ => ?_
    rw [lane_of_cleared ((hx hold).unaccepted ha hτ), ← (hx hold).lane]
    exact hne.symm

end Attestation

/-- No snapshot of an interval and no price of a block is accepted twice from a node, in whatever order its
rounds, its executions and the world take their turns, and whatever fails. -/
theorem accepted_le_one {σ : Type} {s : Settings} {w : World σ Request Answer} {flag : σ → Digest → Bool}
    (hw : RecordsAttestations s.node w flag) {st : σ} {p : Process σ Request Answer Controller}
    (h : Process.Reachable w (Trigger s) st p) (hi : KeepsIndices s.store p.log) (τ : Ticket) :
    accepted τ p.log ≤ 1 := by
  have hheld := (Attestation.keeps hw).reachable (discipline_valid s)
    (fun _ _ => ⟨Nat.zero_le 1, nofun⟩) h
  exact (hheld.fact hi τ).1

theorem accepted_le_one_sample : ∃ p, Process.Reachable Sample.world (Trigger Sample.settings)
    ⟨Sample.disk, []⟩ p ∧ accepted (.snapshot 5) p.log = 1 ∧ ∀ τ, accepted τ p.log ≤ 1 := by
  obtain ⟨p, hp, hlog⟩ := Sample.resumes
  have hi := PublishedTree.keepsIndices Scene.usesDisk Scene.readsDisk Sample.generatedBy Sample.vacant hp
  have hone : accepted (.snapshot 5) p.log = 1 := by
    rw [hlog]
    rfl
  exact ⟨p, hp, hone, accepted_le_one Scene.recordsAttestations hp hi⟩

end OracleDuty
