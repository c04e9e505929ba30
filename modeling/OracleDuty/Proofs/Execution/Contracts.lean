import Mathlib.Data.List.Forall2
import OracleDuty.Proofs.Execution.Reading
/-!
What the contracts of the protocol are read for at a block: the calls that are made, and what is returned from
their answers.

Main statements: `reads_interval`, `reads_prices` and `reads_roll`. The last one is about reading the members of
the oracle set side by side, of which reading them one after the other is a case (`behaviour_members`).
-/
namespace OracleDuty.Execution

open Contract (Name Read)

variable {α : Type} {n : Node} {block : UInt64} {prior : List Asked}

inductive LookedUp (n : Node) (name : Name) : List Asked → Address → Prop where
  | found {answer : Except String Json} {a : Address} (ha : answeredAddress? answer = some a) (h : a ≠ 0) :
    LookedUp n name [⟨n.registry, .getAddress (Registry.key name.text), answer⟩] a

inductive ReadInterval (n : Node) : List Asked → Interval → Prop where
  | read {lookup : List Asked} {pool : Address} {index start duration : Except String Json} {i : Interval}
    (hpool : LookedUp n .rewardsPool lookup pool) (hindex : answeredNumber? index = some i.index)
    (hstart : answeredNumber? start = some i.startTime) (hduration : answeredNumber? duration = some i.duration) :
    ReadInterval n (lookup ++ [⟨pool, .getRewardIndex, index⟩, ⟨pool, .getClaimIntervalTimeStart, start⟩,
      ⟨pool, .getClaimIntervalTime, duration⟩]) i

inductive ReadPrices (n : Node) : List Asked → PriceSettings → Prop where
  | read {lookup lookup' : List Asked} {settings prices : Address} {enabled block reportable : Except String Json}
    {s : PriceSettings} (hsettings : LookedUp n .networkSettings lookup settings)
    (hprices : LookedUp n .networkPrices lookup' prices) (henabled : answeredFlag? enabled = some s.enabled)
    (hblock : answeredNumber? block = some s.pricesBlock)
    (hreportable : answeredNumber? reportable = some s.latestReportableBlock) :
    ReadPrices n (lookup ++ lookup' ++ [⟨settings, .getSubmitPricesEnabled, enabled⟩,
      ⟨prices, .getPricesBlock, block⟩, ⟨prices, .getLatestReportableBlock, reportable⟩]) s

inductive ReadMember (nodes : Address) (index : Nat) : List Asked → Member → Prop where
  | read {address joined : Except String Json} {m : Member} (haddress : answeredAddress? address = some m.address)
    (hjoined : answeredNumber? joined = some m.joinedTime) :
    ReadMember nodes index [⟨nodes, .getMemberAt (BitVec.ofNat 256 index), address⟩,
      ⟨nodes, .getMemberJoinedTime m.address, joined⟩] m

inductive ReadRoll (n : Node) : List Asked → List Member → Prop where
  | read {lookup calls : List Asked} {nodes : Address} {count : Except String Json} {k : UInt64} {ms : List Member}
    (hnodes : LookedUp n .trustedNodes lookup nodes) (hcount : answeredNumber? count = some k)
    (hmembers : Abreast (ReadMember nodes) (List.range k.toNat) calls ms) :
    ReadRoll n (lookup ++ ⟨nodes, .getMemberCount, count⟩ :: calls) ms

/-! ### What is returned comes of calls that succeed -/

theorem LookedUp.succeeds {name : Name} {calls : List Asked} {a : Address} (h : LookedUp n name calls a) :
    ∀ y ∈ calls, y.Succeeds := by
  cases h with
  | found ha hne => exact List.forall_mem_singleton.mpr ⟨a, ha, hne⟩

theorem LookedUp.length_eq {name : Name} {calls : List Asked} {a : Address} (h : LookedUp n name calls a) :
    calls.length = 1 := by
  cases h
  rfl

/-- An interval is read by calls that have all succeeded. -/
theorem ReadInterval.succeeds {calls : List Asked} {i : Interval} (h : ReadInterval n calls i) :
    ∀ y ∈ calls, y.Succeeds := by
  cases h with
  | read hpool hindex hstart hduration =>
    rw [List.forall_mem_append, List.forall_mem_cons, List.forall_mem_cons, List.forall_mem_singleton]
    refine ⟨hpool.succeeds, ?_, ?_, ?_⟩
    · exact Option.isSome_of_mem hindex
    · exact Option.isSome_of_mem hstart
    · exact Option.isSome_of_mem hduration

theorem ReadInterval.length_eq {calls : List Asked} {i : Interval} (h : ReadInterval n calls i) :
    calls.length = 4 := by
  cases h with
  | read hpool _ _ _ => simp [hpool.length_eq]

/-- The price settings are read by calls that have all succeeded. -/
theorem ReadPrices.succeeds {calls : List Asked} {s : PriceSettings} (h : ReadPrices n calls s) :
    ∀ y ∈ calls, y.Succeeds := by
  cases h with
  | read hsettings hprices henabled hblock hreportable =>
    rw [List.forall_mem_append, List.forall_mem_append, List.forall_mem_cons, List.forall_mem_cons,
      List.forall_mem_singleton]
    refine ⟨⟨hsettings.succeeds, hprices.succeeds⟩, ?_, ?_, ?_⟩
    · exact Option.isSome_of_mem henabled
    · exact Option.isSome_of_mem hblock
    · exact Option.isSome_of_mem hreportable

theorem ReadPrices.length_eq {calls : List Asked} {s : PriceSettings} (h : ReadPrices n calls s) :
    calls.length = 5 := by
  cases h with
  | read hsettings hprices _ _ _ => simp [hsettings.length_eq, hprices.length_eq]

theorem ReadMember.succeeds {nodes : Address} {index : Nat} {calls : List Asked} {m : Member}
    (h : ReadMember nodes index calls m) : ∀ y ∈ calls, y.Succeeds := by
  cases h with
  | read haddress hjoined =>
    rw [List.forall_mem_cons, List.forall_mem_singleton]
    constructor
    · exact Option.isSome_of_mem haddress
    · exact Option.isSome_of_mem hjoined

theorem ReadMember.length_eq {nodes : Address} {index : Nat} {calls : List Asked} {m : Member}
    (h : ReadMember nodes index calls m) : calls.length = 2 := by
  cases h
  rfl

section Abreast

variable {δ : Type} {good : δ → List Asked → α → Prop} {ds : List δ} {calls : List Asked} {as : List α}

/-- Actions side by side have succeeded in all calls if each one has in its own. -/
theorem Abreast.succeeds (h : Abreast good ds calls as)
    (hgood : ∀ d calls a, good d calls a → ∀ y ∈ calls, y.Succeeds) : ∀ y ∈ calls, y.Succeeds := by
  induction h with
  | nil => exact List.forall_mem_nil _
  | cons hcalls ha _ ih =>
    intro y hy
    rcases (hcalls.mem_iff y).mp hy with hu | hv
    · exact hgood _ _ _ ha y hu
    · exact ih y hv

theorem Abreast.length_calls {k : Nat} (h : Abreast good ds calls as)
    (hgood : ∀ d calls a, good d calls a → calls.length = k) : calls.length = k * as.length := by
  induction h with
  | nil => rfl
  | cons hcalls ha _ ih => rw [hcalls.length_eq, hgood _ _ _ ha, ih, List.length_cons, Nat.mul_succ, Nat.add_comm]

/-- Each result comes of calls of its own. -/
theorem Abreast.forall₂ (h : Abreast good ds calls as) :
    List.Forall₂ (fun d a => ∃ own : List Asked, own.Sublist calls ∧ good d own a) ds as := by
  induction h with
  | nil => exact .nil
  | cons hcalls ha _ ih =>
    refine .cons ⟨_, hcalls.sublist_left, ha⟩ (ih.imp ?_)
    rintro d a ⟨own, hown, hgood⟩
    exact ⟨own, hown.trans hcalls.sublist_right, hgood⟩

end Abreast

theorem ReadRoll.succeeds {calls : List Asked} {ms : List Member} (h : ReadRoll n calls ms) :
    ∀ y ∈ calls, y.Succeeds := by
  cases h with
  | read hnodes hcount hmembers =>
    rw [List.forall_mem_append, List.forall_mem_cons]
    refine ⟨hnodes.succeeds, Option.isSome_of_mem hcount, ?_⟩
    exact hmembers.succeeds fun _ _ _ h => h.succeeds

theorem ReadRoll.length_eq {calls : List Asked} {ms : List Member} (h : ReadRoll n calls ms) :
    calls.length = 2 + 2 * ms.length := by
  cases h with
  | read hnodes _ hmembers =>
    rw [List.length_append, List.length_cons, hnodes.length_eq, hmembers.length_calls fun _ _ _ h => h.length_eq]
    omega

/-! ### Side by side -/

def Node.roll (n : Node) (block : UInt64) : Behaviour Wire.Request Wire.Answer (List Member) :=
  (behaviour (n.contract (.number block) .trustedNodes)).Then fun nodes =>
    (behaviour (n.read (.number block) nodes .getMemberCount Contract.resultWord?)).Then fun word =>
      (behaviour (Node.fitting "member_count" word)).Then fun count =>
        .all ((List.range count.toNat).map fun i => behaviour (n.member (.number block) nodes i))

theorem steady_roll (n : Node) (block : UInt64) : (n.roll block).Steady := by
  refine (behaviour_steady _).then fun nodes => ?_
  refine (behaviour_steady _).then fun word => ?_
  exact (behaviour_steady _).then fun count => steady_map _ _

/-- Reading the members one after the other is a case of it. -/
theorem behaviour_members {t : List (Exchange Wire.Request Wire.Answer)} {o : Attempt (List Member)}
    (h : behaviour (n.members block) t o) : n.roll block t o := by
  refine (behaviour_bind h).mono (fun _ _ h => h) fun nodes t o h => ?_
  refine (behaviour_bind h).mono (fun _ _ h => h) fun word t o h => ?_
  refine (behaviour_bind h).mono (fun _ _ h => h) fun count t o h => ?_
  exact behaviour_mapM h

/-! ### Steps -/

/-- A contract is looked up by one call of the registry. -/
theorem reads_contract (name : Name) :
    Reads n block prior (behaviour (n.contract (.number block) name)) fun calls a =>
      ∃ own, calls = prior ++ own ∧ LookedUp n name own a := by
  have hbad : ∀ answer, answered Contract.resultAddress? answer = none →
      ¬(⟨n.registry, .getAddress (Registry.key name.text), answer⟩ : Asked).Succeeds := by
    rintro answer hnone ⟨a, ha, _⟩
    rw [answeredAddress?, hnone] at ha
    cases ha
  refine (reads_call hbad).bind ?_
  rintro _ a ⟨answer, ha, rfl⟩
  by_cases hzero : a = 0
  · rw [if_pos hzero]
    refine reads_at_once rfl ⟨_, List.mem_append_right _ List.mem_cons_self, ?_⟩
    rintro ⟨a', ha', hne⟩
    rw [answeredAddress?, ha] at ha'
    cases ha'
    exact hne hzero
  · rw [if_neg hzero]
    exact reads_at_once rfl ⟨_, rfl, .found ha hzero⟩

structure Worded (y : Asked) (w : Word) : Prop where
  asksNumber : y.Succeeds ↔ (answeredNumber? y.answer).isSome = true
  word : answered Contract.resultWord? y.answer = some w

/-- A number is asked for as a word, and fails later unless it is one of 64 bits. -/
theorem reads_word {target : Address} {what : Read} (hwhat : ∀ answer,
      (⟨target, what, answer⟩ : Asked).Succeeds ↔ (answeredNumber? answer).isSome = true) :
    Reads n block prior (behaviour (n.read (.number block) target what Contract.resultWord?)) fun calls w =>
      ∃ answer, Worded ⟨target, what, answer⟩ w ∧ calls = prior ++ [⟨target, what, answer⟩] := by
  have hbad : ∀ answer, answered Contract.resultWord? answer = none →
      ¬(⟨target, what, answer⟩ : Asked).Succeeds := by
    intro answer hnone hs
    rw [hwhat, answeredNumber?, hnone] at hs
    cases hs
  refine (reads_call hbad).mono ?_
  rintro calls w ⟨answer, hw, rfl⟩
  exact ⟨answer, ⟨hwhat answer, hw⟩, rfl⟩

/-- A word that does not fit is the failure of the call that it came of. -/
theorem reads_fitting {field : String} {y : Asked} {w : Word} (hy : Worded y w) (hmem : y ∈ prior) :
    Reads n block prior (behaviour (Node.fitting field w)) fun calls k =>
      calls = prior ∧ answeredNumber? y.answer = some k := by
  have hnumber : answeredNumber? y.answer = (w.toUInt64? "").toOption := by
    rw [answeredNumber?, hy.word, Option.bind_some]
  by_cases hfits : w.toNat < UInt64.size
  · have hrun : (Node.fitting field w).run = .done (.ok (UInt64.ofNat w.toNat)) := by
      simp only [Node.fitting, Word.toUInt64?, if_pos hfits]
      rfl
    refine reads_at_once hrun ⟨rfl, ?_⟩
    rw [hnumber, Word.toUInt64?, if_pos hfits]
    rfl
  · have hrun : (Node.fitting field w).run = .done (.error (.overflow ⟨field, w⟩)) := by
      simp only [Node.fitting, Word.toUInt64?, if_neg hfits]
      rfl
    refine reads_at_once hrun ⟨y, hmem, ?_⟩
    rw [hy.asksNumber, hnumber, Word.toUInt64?, if_neg hfits]
    exact Bool.false_ne_true

/-! ### Contracts -/

/-- The interval is read by calls of the rewards pool, after its lookup. -/
theorem reads_interval : Reads n block [] (behaviour (n.rewardInterval block)) (ReadInterval n) := by
  unfold Node.rewardInterval
  refine (reads_contract .rewardsPool).bind ?_
  rintro _ pool ⟨lookup, rfl, hpool⟩
  refine (reads_word fun _ => Iff.rfl).bind ?_
  rintro _ w ⟨index, hw, rfl⟩
  refine (reads_word fun _ => Iff.rfl).bind ?_
  rintro _ w' ⟨start, hw', rfl⟩
  refine (reads_word fun _ => Iff.rfl).bind ?_
  rintro _ w'' ⟨duration, hw'', rfl⟩
  refine (reads_fitting hw (by simp)).bind ?_
  rintro _ i ⟨rfl, hi⟩
  refine (reads_fitting hw' (by simp)).bind ?_
  rintro _ s ⟨rfl, hs⟩
  refine (reads_fitting hw'' (by simp)).bind ?_
  rintro _ d ⟨rfl, hd⟩
  refine reads_at_once rfl ?_
  simp only [List.nil_append, List.append_assoc, List.cons_append]
  exact .read hpool hi hs hd

/-- The price settings are read from two contracts. -/
theorem reads_prices : Reads n block [] (behaviour (n.priceSettings block)) (ReadPrices n) := by
  unfold Node.priceSettings
  refine (reads_contract .networkSettings).bind ?_
  rintro _ settings ⟨lookup, rfl, hsettings⟩
  refine (reads_contract .networkPrices).bind ?_
  rintro _ prices ⟨lookup', rfl, hprices⟩
  refine (reads_call ?_).bind ?_
  · intro answer hnone hs
    change (answeredFlag? answer).isSome = true at hs
    rw [answeredFlag?, hnone] at hs
    cases hs
  rintro _ e ⟨enabled, he, rfl⟩
  refine (reads_word fun _ => Iff.rfl).bind ?_
  rintro _ w ⟨accepted, hw, rfl⟩
  refine (reads_word fun _ => Iff.rfl).bind ?_
  rintro _ w' ⟨reportable, hw', rfl⟩
  refine (reads_fitting hw (by simp)).bind ?_
  rintro _ b ⟨rfl, hb⟩
  refine (reads_fitting hw' (by simp)).bind ?_
  rintro _ r ⟨rfl, hr⟩
  refine reads_at_once rfl ?_
  simp only [List.nil_append, List.append_assoc, List.cons_append]
  rw [← List.append_assoc]
  exact .read hsettings hprices he hb hr

/-- A member is read by its position first, and then by its address. -/
theorem reads_member (n : Node) (block : UInt64) (nodes : Address) (index : Nat) :
    Reads n block [] (behaviour (n.member (.number block) nodes index)) (ReadMember nodes index) := by
  unfold Node.member
  refine (reads_call ?_).bind ?_
  · intro answer hnone hs
    change (answeredAddress? answer).isSome = true at hs
    rw [answeredAddress?, hnone] at hs
    cases hs
  rintro _ a ⟨address, ha, rfl⟩
  refine (reads_word fun _ => Iff.rfl).bind ?_
  rintro _ w ⟨joined, hw, rfl⟩
  refine (reads_fitting hw (by simp)).bind ?_
  rintro _ k ⟨rfl, hk⟩
  exact reads_at_once rfl (ReadMember.read (m := ⟨a, k⟩) ha hk)

/-- The members are counted, and then read in any order among each other. -/
theorem reads_roll : Reads n block [] (n.roll block) (ReadRoll n) := by
  refine (reads_contract .trustedNodes).then ?_
  rintro _ nodes ⟨lookup, rfl, hnodes⟩
  refine (reads_word fun _ => Iff.rfl).then ?_
  rintro _ w ⟨count, hw, rfl⟩
  refine (reads_fitting hw (by simp)).then ?_
  rintro _ k ⟨rfl, hk⟩
  have hall := reads_all (reads_member n block nodes) (List.range k.toNat)
  refine (hall.after _).mono ?_
  rintro _ ms ⟨calls, rfl, hcalls⟩
  simp only [List.nil_append, List.append_assoc, List.cons_append]
  exact .read hnodes hk hcalls

end OracleDuty.Execution
