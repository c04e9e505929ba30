import OracleDuty.Clients
import OracleDuty.Proofs.Beacon.Inquiry
import OracleDuty.Proofs.Checked
import OracleDuty.Proofs.Unhindered
/-!
The walk back from the last slot of a snapshot's epoch: it asks for the slots one after the other, down to the
first one that is not empty or to the lowest one that it may reach, and what it hears there is its result.

Main statement: `resolve_exact`.
-/
namespace OracleDuty

open Program

/-! ### One slot of a beacon node -/

namespace Beacon

def Node.lookup? (n : Node) (slot : UInt64) : Option Http.Request :=
  n.getting? s!"eth/v2/beacon/blocks/{slot}"

/-- What a node is asked for the block at a slot, and what comes of it. Only a status of 404 makes the slot an
empty one. -/
inductive Lookup (n : Node) (slot : UInt64) :
    List (Exchange Wire.Request Wire.Answer) → Except Error (Option Chain.Block) → Prop where
  | unsent (h : n.lookup? slot = none) (e : Error) : Lookup n slot [] (.error e)
  | absent {q : Http.Request} {r : Http.Response} (hq : n.lookup? slot = some q) (h : r.status = 404) :
    Lookup n slot [⟨.http q, .ok r⟩] (.ok none)
  | found {q : Http.Request} {a : Except Http.Failure Http.Response} {block : Chain.Block}
    (hq : n.lookup? slot = some q) (h : yields block? a = some block) :
    Lookup n slot [⟨.http q, a⟩] (.ok (some block))
  | failed {q : Http.Request} {a : Except Http.Failure Http.Response}
    (hq : n.lookup? slot = some q) (h : yields block? a = none)
    (hstatus : ∀ r, a = .ok r → r.status ≠ 404) (e : Error) : Lookup n slot [⟨.http q, a⟩] (.error e)

/-- An answer of the node is a lookup by its status and its document. -/
theorem lookup_finding {n : Node} {slot : UInt64} {q : Http.Request} (hq : n.lookup? slot = some q)
    (operation : String) (a : Except Http.Failure Http.Response) :
    Lookup n slot [⟨.http q, a⟩] (finding operation block? a) := by
  cases a with
  | error f => exact .failed hq rfl (fun _ h => by cases h) _
  | ok r =>
    by_cases h404 : r.status = 404
    · rw [finding, if_pos h404]
      exact .absent hq h404
    have hstatus : ∀ r', (.ok r : Except Http.Failure Http.Response) = .ok r' → r'.status ≠ 404 := by
      intro r' hr
      cases hr
      exact h404
    rw [finding, if_neg h404]
    by_cases hsuccess : (!r.status.isSuccess) = true
    · have hyields : yields block? (.ok r) = none := by rw [yields, if_neg h404, if_pos hsuccess]
      rw [if_pos hsuccess]
      exact .failed hq hyields hstatus _
    · have hyields : yields block? (.ok r) = r.json?.bind block? := by
        rw [yields, if_neg h404, if_neg hsuccess]
      rw [if_neg hsuccess]
      cases hread : r.json?.bind block? with
      | none => exact .failed hq (hyields.trans hread) hstatus _
      | some block => exact .found hq (hyields.trans hread)

/-- However the client comes to its result, it is one of a lookup. -/
theorem Node.ends_block {n : Node} {slot : UInt64} {v : List (Exchange Wire.Request Wire.Answer)}
    {answer : Except Error (Option Chain.Block)} (h : (n.block slot).run.Ends v answer) :
    Lookup n slot v answer := by
  unfold Node.block at h
  cases hq : n.lookup? slot with
  | none =>
    obtain ⟨e, hrun | ⟨line, hrun⟩⟩ := query_of_none hq "get_block" block?
    · rw [hrun] at h
      obtain ⟨rfl, rfl⟩ := ends_done.mp h
      exact .unsent hq e
    · rw [hrun] at h
      obtain ⟨rfl, rfl⟩ := ends_done.mp (ends_note.mp h)
      exact .unsent hq e
  | some q =>
    obtain ⟨line, hrun⟩ := query_of_some hq "get_block" block?
    rw [hrun] at h
    obtain ⟨a, u, rfl, hu⟩ := ends_ask.mp (ends_note.mp h)
    obtain ⟨rfl, rfl⟩ := ends_done.mp hu
    exact lookup_finding hq _ a

end Beacon

namespace Snapshot

open Duty

/-! ### The walk as a loop -/

def look (slot : UInt64) (onward : Action Chain.Block) : Action Chain.Block := do
  match ← ask (Program.request (Request.block slot)) with
  | some block =>
    Action.log .snapshot .debug "Found snapshot block"
      [("slot", .unsigned slot), ("execution_block", .unsigned block.executionBlock)]
    return block
  | none =>
    Action.log .snapshot .debug "Slot is empty, walking back" [("slot", .unsigned slot)]
    onward

/-- The walk as a loop that compares each slot with the lowest one, each step down checked. There is nothing
where a step would lead below zero, or where the rounds do not suffice. -/
def loop? (first lowest : UInt64) : (rounds : Nat) → (slot : UInt64) → Option (Action Chain.Block)
  | 0, _ => none
  | rounds + 1, slot =>
    if slot = lowest then some (look slot (Action.fail (.snapshot (.noProposedBlock first lowest))))
    else do
      let before ← Checked.sub? slot 1
      let onward ← loop? first lowest rounds before
      return look slot onward

theorem walk_zero (first slot : UInt64) : walk first 0 slot =
    look slot (Action.fail (.snapshot (.noProposedBlock first slot))) := by
  unfold walk look
  exact congrArg _ (funext fun found => by cases found <;> rfl)

theorem walk_succ (first : UInt64) (left : Nat) (slot : UInt64) : walk first (left + 1) slot =
    look slot (walk first left (slot - 1)) := by
  conv => lhs; unfold walk
  exact congrArg _ (funext fun found => by cases found <;> rfl)

/-- The loop comes to the lowest slot, and no step leads below zero. -/
theorem loop?_eq (first : UInt64) {lowest slot : UInt64} {left : Nat}
    (h : lowest.toNat + left = slot.toNat) :
    loop? first lowest (left + 1) slot = some (walk first left slot) := by
  induction left generalizing slot with
  | zero =>
    obtain rfl := UInt64.toNat_inj.mp h
    rw [loop?, if_pos rfl, walk_zero]
  | succ left ih =>
    have hne : slot ≠ lowest := by
      rintro rfl
      omega
    have hbefore : lowest.toNat + left = (slot - 1).toNat := by
      rw [toNat_sub_one (by omega)]
      omega
    have hone : (1 : UInt64).toNat ≤ slot.toNat := by
      change 1 ≤ slot.toNat
      omega
    rw [loop?, if_neg hne, Checked.sub?_eq hone, walk_succ]
    simp only [Option.bind_eq_bind, Option.bind_some, ih hbefore, Option.pure_def]

/-! ### What a walk asks -/

/-- The slot some slots before another one, in unbounded numbers. -/
def back (slot : UInt64) (i : Nat) : UInt64 := UInt64.ofNat (slot.toNat - i)

@[simp] theorem back_zero (slot : UInt64) : back slot 0 = slot := UInt64.ofNat_toNat

theorem toNat_back (slot : UInt64) (i : Nat) : (back slot i).toNat = slot.toNat - i :=
  UInt64.toNat_ofNat_of_lt' (Nat.lt_of_le_of_lt (Nat.sub_le _ _) (UInt64.toNat_lt slot))

theorem back_sub_one {slot : UInt64} (h : 0 < slot.toNat) (i : Nat) :
    back (slot - 1) i = back slot (i + 1) := by
  rw [back, back, toNat_sub_one h, Nat.sub_sub, Nat.add_comm]

def concluded (first lowest : UInt64) : Except Report (Option Chain.Block) → Except Report Chain.Block
  | .ok (some block) => .ok block
  | .ok none => .error (Report.of (.snapshot (.noProposedBlock first lowest)))
  | .error e => .error e

section Served

variable {W : Type} {B : W → Type} {f : (q : Request) → Program W B (Answer q)} {first slot : UInt64}
  {u : List (Exchange W B)} {r : Except Report Chain.Block}

def Hears (f : (q : Request) → Program W B (Answer q)) (slot : UInt64) (v : List (Exchange W B))
    (answer : Except Report (Option Chain.Block)) : Prop :=
  (f (.block slot)).Ends v answer

/-- A look ends where the slot is not empty; else what is done there decides. -/
theorem ends_look (first : UInt64) {onward : Action Chain.Block} (h : ((look slot onward).run.serve f).Ends u r) :
    ∃ answer v w, u = v ++ w ∧ Hears f slot v answer ∧
      (answer ≠ .ok none ∧ w = [] ∧ (∀ lowest, r = concluded first lowest answer) ∨
        answer = .ok none ∧ (onward.run.serve f).Ends w r) := by
  unfold look at h
  rw [run_bind, serve_bind, ends_bind] at h
  obtain ⟨answer, v, w, rfl, hv, hw⟩ := h
  have hhears : Hears f slot v answer := by
    rw [Hears, ← bind_done (f (.block slot))]
    exact hv
  refine ⟨answer, v, w, rfl, hhears, ?_⟩
  match answer, hw with
  | .error e, hw =>
    obtain ⟨rfl, rfl⟩ := ends_done.mp hw
    exact .inl ⟨nofun, rfl, fun _ => rfl⟩
  | .ok (some block), hw =>
    obtain ⟨rfl, rfl⟩ := ends_done.mp (ends_note.mp hw)
    exact .inl ⟨nofun, rfl, fun _ => rfl⟩
  | .ok none, hw => exact .inr ⟨rfl, ends_note.mp hw⟩

/-- Whatever serves the lookups: slots are passed over while they are empty, and the next answer is the end. -/
theorem ends_walk_serve {left : Nat} (hleft : left ≤ slot.toNat)
    (h : ((walk first left slot).run.serve f).Ends u r) :
    ∃ skipped ≤ left, ∃ (heard : Nat → List (Exchange W B)) (answer : Except Report (Option Chain.Block)),
      u = (List.range (skipped + 1)).flatMap heard ∧
      (∀ i < skipped, Hears f (back slot i) (heard i) (.ok none)) ∧
      Hears f (back slot skipped) (heard skipped) answer ∧
      (answer = .ok none → skipped = left) ∧ r = concluded first (back slot left) answer := by
  induction left generalizing slot u with
  | zero =>
    -- the lowest slot is the last to be asked for, be it empty or not
    rw [walk_zero] at h
    obtain ⟨answer, v, w, rfl, hv, hend⟩ := ends_look first h
    refine ⟨0, Nat.le_refl _, fun _ => v, answer, ?_, nofun, ?_, fun _ => rfl, ?_⟩
    · obtain ⟨-, rfl, -⟩ | ⟨-, hw⟩ := hend
      · simp
      · obtain ⟨rfl, -⟩ := ends_done.mp hw
        simp
    · rw [back_zero]
      exact hv
    · rw [back_zero]
      obtain ⟨-, -, hr⟩ | ⟨rfl, hw⟩ := hend
      · exact hr slot
      · exact (ends_done.mp hw).2.symm
  | succ left ih =>
    have hpos : 0 < slot.toNat := Nat.lt_of_lt_of_le (Nat.succ_pos left) hleft
    rw [walk_succ] at h
    obtain ⟨answer, v, w, rfl, hv, hend⟩ := ends_look first h
    obtain ⟨hanswer, rfl, hr⟩ | ⟨rfl, hw⟩ := hend
    · refine ⟨0, Nat.zero_le _, fun _ => v, answer, by simp, nofun, ?_, ?_, hr _⟩
      · rw [back_zero]
        exact hv
      · exact fun hnone => absurd hnone hanswer
    · -- the slot is empty, and the rest is the walk from the slot before it
      have hbefore : left ≤ (slot - 1).toNat := by
        rw [toNat_sub_one hpos]
        omega
      obtain ⟨skipped, hskipped, heard, answer, rfl, hempty, hlast, hnone, rfl⟩ := ih hbefore hw
      simp only [back_sub_one hpos] at hempty hlast ⊢
      refine ⟨skipped + 1, Nat.succ_le_succ hskipped, fun i => Nat.casesOn i v heard, answer, ?_, ?_,
        hlast, fun ha => congrArg (· + 1) (hnone ha), rfl⟩
      · rw [List.range_succ_eq_map (n := skipped + 1), List.flatMap_cons, List.flatMap_map]
        rfl
      · rintro (_ | i) hi
        · rw [back_zero]
          exact hv
        · exact hempty i (Nat.lt_of_succ_lt_succ hi)

end Served

/-! ### Resolutions -/

/-- What a resolution comes to by the last answer that its walk hears. -/
def settled (endTime : UInt64) (p : Plan) (lowest : UInt64) :
    Except Report (Option Chain.Block) → Except Report Resolution
  | .ok (some block) => .ok (.ready ⟨endTime, p, block.slot, block.executionBlock⟩)
  | .ok none => .error (Report.of (.snapshot (.noProposedBlock p.targetSlot lowest)))
  | .error e => .error e

/-- The block that ends a walk is the one that the resolution names. -/
theorem map_concluded (endTime : UInt64) (p : Plan) (lowest : UInt64)
    (answer : Except Report (Option Chain.Block)) :
    ((concluded p.targetSlot lowest answer).map fun block =>
      Resolution.ready ⟨endTime, p, block.slot, block.executionBlock⟩) =
      settled endTime p lowest answer := by
  match answer with
  | .error e => rfl
  | .ok none => rfl
  | .ok (some block) => rfl

theorem back_min (slot : UInt64) (depth : Nat) : back slot (min depth slot.toNat) = back slot depth := by
  unfold back
  congr 1
  omega

theorem back_inj {slot : UInt64} {i j : Nat} (hi : i ≤ slot.toNat) (hj : j ≤ slot.toNat)
    (h : back slot i = back slot j) : i = j := by
  have htoNat := congrArg UInt64.toNat h
  rw [toNat_back, toNat_back] at htoNat
  omega

section Resolve

variable {endTime finalizedEpoch maxWalkback : UInt64} {timing : Chain.Timing} {p : Plan}

/-- Before finality nothing is asked. -/
theorem resolve_of_lt (hplan : plan endTime timing = .ok p)
    (h : finalizedEpoch < p.requiredFinalizedEpoch) {t : List (Exchange Request Answer)}
    {r : Except Report Resolution} :
    (resolve endTime timing finalizedEpoch maxWalkback).run.Ends t r ↔
      t = [] ∧ r = .ok (.awaitingFinality p finalizedEpoch) := by
  have hrun : ∃ line, (resolve endTime timing finalizedEpoch maxWalkback).run =
      note line (done (.ok (.awaitingFinality p finalizedEpoch))) := by
    unfold resolve
    rw [hplan]
    dsimp only [Action.ofExcept]
    rw [pure_bind, if_pos h]
    exact ⟨_, rfl⟩
  obtain ⟨line, hrun⟩ := hrun
  rw [hrun, ends_note, ends_done]
  exact and_congr_right fun _ => eq_comm

/-- After finality the walk decides. -/
theorem resolve_of_le (hplan : plan endTime timing = .ok p)
    (h : p.requiredFinalizedEpoch ≤ finalizedEpoch) :
    (resolve endTime timing finalizedEpoch maxWalkback).run =
      (walk p.targetSlot (min maxWalkback.toNat p.targetSlot.toNat) p.targetSlot).run.bind fun r =>
        done (r.map fun block => .ready ⟨endTime, p, block.slot, block.executionBlock⟩) := by
  unfold resolve
  rw [hplan]
  dsimp only [Action.ofExcept]
  rw [pure_bind, if_neg (UInt64.not_lt.mpr h), run_bind]
  exact congrArg _ (funext fun r => by cases r <;> rfl)

/-- Whatever serves its lookups, a resolution ends with the first answer that does not tell of an empty slot, or
with the one for the lowest slot. -/
theorem ends_resolve_serve {W : Type} {B : W → Type} {f : (q : Request) → Program W B (Answer q)}
    (hplan : plan endTime timing = .ok p) (hfinal : p.requiredFinalizedEpoch ≤ finalizedEpoch)
    {u : List (Exchange W B)} {r : Except Report Resolution}
    (h : ((resolve endTime timing finalizedEpoch maxWalkback).run.serve f).Ends u r) :
    ∃ skipped ≤ min maxWalkback.toNat p.targetSlot.toNat, ∃ (heard : Nat → List (Exchange W B))
      (answer : Except Report (Option Chain.Block)),
      u = (List.range (skipped + 1)).flatMap heard ∧
      (∀ i < skipped, Hears f (back p.targetSlot i) (heard i) (.ok none)) ∧
      Hears f (back p.targetSlot skipped) (heard skipped) answer ∧
      (answer = .ok none → back p.targetSlot skipped = back p.targetSlot maxWalkback.toNat) ∧
      r = settled endTime p (back p.targetSlot maxWalkback.toNat) answer := by
  rw [resolve_of_le hplan hfinal, serve_bind, ends_bind] at h
  obtain ⟨block, v, w, rfl, hv, hw⟩ := h
  obtain ⟨rfl, rfl⟩ := ends_done.mp hw
  obtain ⟨skipped, hskipped, heard, answer, rfl, hempty, hlast, hnone, rfl⟩ :=
    ends_walk_serve (Nat.min_le_right _ _) hv
  refine ⟨skipped, hskipped, heard, answer, List.append_nil _, hempty, hlast, ?_, ?_⟩
  · intro ha
    rw [hnone ha, back_min]
  · rw [back_min]
    exact map_concluded _ _ _ _

/-- All slots that a walk may reach are empty if the last one that it asks for is. -/
theorem forall_empty_iff {found : UInt64 → Except Report (Option Chain.Block)} {slot : UInt64}
    {depth skipped : Nat} (hskipped : skipped ≤ min depth slot.toNat)
    (hempty : ∀ i < skipped, found (back slot i) = .ok none)
    (hnone : found (back slot skipped) = .ok none → back slot skipped = back slot depth) :
    (∀ s, back slot depth ≤ s → s ≤ slot → found s = .ok none) ↔ found (back slot skipped) = .ok none := by
  constructor
  · intro hall
    apply hall
    · rw [UInt64.le_iff_toNat_le, toNat_back, toNat_back]
      omega
    · rw [UInt64.le_iff_toNat_le, toNat_back]
      omega
  · intro hlast s hlow hhigh
    rw [UInt64.le_iff_toNat_le, toNat_back] at hlow
    rw [UInt64.le_iff_toNat_le] at hhigh
    obtain rfl : skipped = min depth slot.toNat := by
      apply back_inj (by omega) (Nat.min_le_right _ _)
      rw [back_min]
      exact hnone hlast
    have hs : s = back slot (slot.toNat - s.toNat) := by
      apply UInt64.toNat_inj.mp
      rw [toNat_back]
      omega
    rcases Nat.lt_or_ge (slot.toNat - s.toNat) (min depth slot.toNat) with hlt | hge
    · rw [hs]
      exact hempty _ hlt
    · have hlast' : slot.toNat - s.toNat = min depth slot.toNat := by omega
      rw [hs, hlast']
      exact hlast

/-- Where requests are served as they are, a lookup is one exchange. -/
theorem hears_request {slot : UInt64} {v : List (Exchange Request Answer)}
    {answer : Except Report (Option Chain.Block)} :
    Hears Program.request slot v answer ↔ v = [⟨.block slot, answer⟩] := by
  unfold Hears Program.request
  rw [ends_ask]
  constructor
  · rintro ⟨a, u, rfl, hu⟩
    obtain ⟨rfl, rfl⟩ := ends_done.mp hu
    rfl
  · rintro rfl
    exact ⟨answer, [], rfl, .refl _⟩

/-- Whatever the answers are, the walk stops at the first slot that is not empty, or where it may go no further.
-/
theorem outcome_resolve (hplan : plan endTime timing = .ok p)
    (hfinal : p.requiredFinalizedEpoch ≤ finalizedEpoch) (answers : (q : Request) → Answer q) :
    ∃ skipped ≤ min maxWalkback.toNat p.targetSlot.toNat,
      (∀ i < skipped, answers (.block (back p.targetSlot i)) = .ok none) ∧
      (answers (.block (back p.targetSlot skipped)) = .ok none →
        back p.targetSlot skipped = back p.targetSlot maxWalkback.toNat) ∧
      (resolve endTime timing finalizedEpoch maxWalkback).run.outcome answers =
        ((List.range (skipped + 1)).map fun i =>
          ⟨.block (back p.targetSlot i), answers (.block (back p.targetSlot i))⟩,
        settled endTime p (back p.targetSlot maxWalkback.toNat)
          (answers (.block (back p.targetSlot skipped)))) := by
  have hends := ends_outcome answers (resolve endTime timing finalizedEpoch maxWalkback).run
  have hanswers := outcome_answers answers (resolve endTime timing finalizedEpoch maxWalkback).run
  generalize (resolve endTime timing finalizedEpoch maxWalkback).run.outcome answers = o at hends hanswers ⊢
  rw [← serve_id (resolve endTime timing finalizedEpoch maxWalkback).run] at hends
  obtain ⟨skipped, hskipped, heard, answer, ht, hempty, hlast, hnone, hr⟩ :=
    ends_resolve_serve hplan hfinal hends
  have hheard : ∀ i ≤ skipped, ∀ a, Hears Program.request (back p.targetSlot i) (heard i) a →
      answers (.block (back p.targetSlot i)) = a := by
    intro i hi a ha
    have hmem : ⟨.block (back p.targetSlot i), a⟩ ∈ o.1 := by
      rw [ht]
      apply List.mem_flatMap.mpr
      refine ⟨i, List.mem_range.mpr (Nat.lt_succ_of_le hi), ?_⟩
      rw [hears_request.mp ha]
      exact List.mem_singleton_self _
    exact (hanswers _ hmem).symm
  have hpassed : ∀ i < skipped, answers (.block (back p.targetSlot i)) = .ok none :=
    fun i hi => hheard i hi.le _ (hempty i hi)
  obtain rfl := hheard skipped le_rfl _ hlast
  refine ⟨skipped, hskipped, hpassed, hnone, Prod.ext ?_ hr⟩
  rw [ht, List.map_eq_flatMap]
  apply List.flatMap_congr
  intro i hi
  rcases Nat.lt_or_eq_of_le (Nat.le_of_lt_succ (List.mem_range.mp hi)) with hlt | rfl
  · rw [hears_request.mp (hempty i hlt), hpassed i hlt]
  · exact hears_request.mp hlast

/-- A lookup over the network tells what the node was found to say, its failure as a report. -/
theorem hears_serve {c : Clients} {slot : UInt64} {v : List (Exchange Wire.Request Wire.Answer)}
    {answer : Except Report (Option Chain.Block)} (h : Hears c.serve slot v answer) :
    ∃ a, Beacon.Lookup c.beacon slot v a ∧ answer = a.mapError fun e => Report.of (.beacon e) := by
  have hlookup : ∀ a, (c.beacon.block slot).run.Ends v a → Beacon.Lookup c.beacon slot v a :=
    fun a => Beacon.Node.ends_block
  rw [Hears, Clients.serve, Clients.ofBeacon] at h
  generalize c.beacon.block slot = x at h hlookup
  rw [run_adapt, ends_bind] at h
  obtain ⟨a, v, w, rfl, hv, hw⟩ := h
  obtain ⟨rfl, rfl⟩ := ends_done.mp hw
  rw [List.append_nil] at hlookup ⊢
  exact ⟨a, hlookup a hv, rfl⟩

/-- With a beacon node, only slots that it knows nothing of are passed over. -/
theorem ends_resolve_clients (hplan : plan endTime timing = .ok p)
    (hfinal : p.requiredFinalizedEpoch ≤ finalizedEpoch) {c : Clients}
    {u : List (Exchange Wire.Request Wire.Answer)} {r : Except Report Resolution}
    (h : ((resolve endTime timing finalizedEpoch maxWalkback).run.serve c.serve).Ends u r) :
    ∃ skipped ≤ min maxWalkback.toNat p.targetSlot.toNat,
      ∃ (heard : Nat → List (Exchange Wire.Request Wire.Answer))
        (answer : Except Beacon.Error (Option Chain.Block)),
        u = (List.range (skipped + 1)).flatMap heard ∧
        (∀ i < skipped, Beacon.Lookup c.beacon (back p.targetSlot i) (heard i) (.ok none)) ∧
        Beacon.Lookup c.beacon (back p.targetSlot skipped) (heard skipped) answer ∧
        (answer = .ok none → back p.targetSlot skipped = back p.targetSlot maxWalkback.toNat) ∧
        r = settled endTime p (back p.targetSlot maxWalkback.toNat)
          (answer.mapError fun e => Report.of (.beacon e)) := by
  obtain ⟨skipped, hskipped, heard, answer, hu, hempty, hlast, hnone, hr⟩ :=
    ends_resolve_serve hplan hfinal h
  obtain ⟨a, ha, rfl⟩ := hears_serve hlast
  refine ⟨skipped, hskipped, heard, a, hu, ?_, ha, ?_, hr⟩
  · intro i hi
    obtain ⟨a, ha, hnone⟩ := hears_serve (hempty i hi)
    cases a with
    | error e => cases hnone
    | ok found =>
      cases hnone
      exact ha
  · rintro rfl
    exact hnone rfl

end Resolve

/-- A resolution asks for no block before the epoch after its own is final. After that it asks for the slots
from its own downwards, each once, with no step below zero, until one is not empty or the lowest one has been
asked for. The last answer decides: the blocks of a snapshot, the very error, or no block, which is heard
exactly where all slots are empty. A beacon node is heard to tell of an empty slot only by a status of 404. -/
theorem resolve_exact {endTime : UInt64} {timing : Chain.Timing} {p : Plan}
    (hplan : plan endTime timing = .ok p) (finalizedEpoch maxWalkback : UInt64) :
    let target := p.targetSlot
    let low := UInt64.ofNat (target.toNat - maxWalkback.toNat)
    let resolution := (resolve endTime timing finalizedEpoch maxWalkback).run
    (finalizedEpoch < p.requiredFinalizedEpoch → ∀ t r,
      resolution.Ends t r ↔ t = [] ∧ r = .ok (.awaitingFinality p finalizedEpoch)) ∧
    (p.requiredFinalizedEpoch ≤ finalizedEpoch →
      (∃ blocks, loop? target low (target.toNat - low.toNat + 1) target = some blocks ∧
        resolution = blocks.run.bind fun r =>
          done (r.map fun block => .ready ⟨endTime, p, block.slot, block.executionBlock⟩)) ∧
      (∀ answers : (q : Request) → Answer q, ∃ skipped, low.toNat + skipped ≤ target.toNat ∧
        (∀ i < skipped, answers (.block (back target i)) = .ok none) ∧
        (answers (.block (back target skipped)) = .ok none → back target skipped = low) ∧
        ((∀ slot, low ≤ slot → slot ≤ target → answers (.block slot) = .ok none) ↔
          answers (.block (back target skipped)) = .ok none) ∧
        resolution.outcome answers =
          ((List.range (skipped + 1)).map fun i => ⟨.block (back target i), answers (.block (back target i))⟩,
          settled endTime p low (answers (.block (back target skipped))))) ∧
      ∀ (c : Clients) u r, (resolution.serve c.serve).Ends u r →
        ∃ (skipped : Nat) (heard : Nat → List (Exchange Wire.Request Wire.Answer))
          (answer : Except Beacon.Error (Option Chain.Block)),
          low.toNat + skipped ≤ target.toNat ∧ u = (List.range (skipped + 1)).flatMap heard ∧
          (∀ i < skipped, Beacon.Lookup c.beacon (back target i) (heard i) (.ok none)) ∧
          Beacon.Lookup c.beacon (back target skipped) (heard skipped) answer ∧
          (answer = .ok none → back target skipped = low) ∧
          r = settled endTime p low (answer.mapError fun e => Report.of (.beacon e))) := by
  intro target low resolution
  have hlow : low.toNat = target.toNat - maxWalkback.toNat := toNat_back target maxWalkback.toNat
  -- the walk is counted by steps, and its lowest slot by the difference that stops at zero
  refine ⟨fun hearly t r => resolve_of_lt hplan hearly, fun hfinal => ⟨?_, ?_, ?_⟩⟩
  · refine ⟨walk target (min maxWalkback.toNat target.toNat) target, ?_, resolve_of_le hplan hfinal⟩
    have hsteps : target.toNat - low.toNat = min maxWalkback.toNat target.toNat := by omega
    rw [hsteps]
    exact loop?_eq target (by omega)
  · intro answers
    obtain ⟨skipped, hskipped, hempty, hnone, houtcome⟩ := outcome_resolve hplan hfinal answers
    refine ⟨skipped, ?_, hempty, hnone, forall_empty_iff hskipped hempty hnone, houtcome⟩
    have hbound : skipped ≤ min maxWalkback.toNat target.toNat := hskipped
    omega
  · intro c u r h
    obtain ⟨skipped, hskipped, heard, answer, hu, hempty, hlast, hnone, hr⟩ :=
      ends_resolve_clients hplan hfinal h
    have hbound : skipped ≤ min maxWalkback.toNat target.toNat := hskipped
    exact ⟨skipped, heard, answer, by omega, hu, hempty, hlast, hnone, hr⟩

/-- A snapshot whose last slot is empty is taken one slot before. -/
theorem resolve_exact_sample :
    (resolve 2000 ⟨1000, 12, 32⟩ 2 5).run.Ends [] (.ok (.awaitingFinality ⟨95, 2, 3⟩ 2)) ∧
      ((resolve 2000 ⟨1000, 12, 32⟩ 3 5).run.outcome Sample.answers).2 =
        .ok (.ready ⟨2000, ⟨95, 2, 3⟩, 94, 1094⟩) := by
  have hplan : plan 2000 ⟨1000, 12, 32⟩ = .ok ⟨95, 2, 3⟩ := by decide +kernel
  refine ⟨((resolve_exact hplan 2 5).1 (by decide) _ _).mpr ⟨rfl, rfl⟩, ?_⟩
  obtain ⟨skipped, -, hempty, -, hall, houtcome⟩ :=
    ((resolve_exact hplan 3 5).2 (by decide)).2.1 Sample.answers
  have h95 : Sample.answers (.block (back 95 0)) = .ok none := by decide +kernel
  have h94 : Sample.answers (.block (back 95 1)) = .ok (some ⟨94, 1094⟩) := by decide +kernel
  obtain rfl : skipped = 1 := by
    match skipped, hempty, hall with
    | 0, _, hall => cases h94.symm.trans (hall.mpr h95 94 (by decide) (by decide))
    | 1, _, _ => rfl
    | _ + 2, hempty, _ => cases h94.symm.trans (hempty 1 (by omega))
  exact (congrArg Prod.snd houtcome).trans (congrArg (settled 2000 ⟨95, 2, 3⟩ (back 95 5)) h94)

end Snapshot

end OracleDuty
