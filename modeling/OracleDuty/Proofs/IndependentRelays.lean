import OracleDuty.Proofs.Duty.RelayPrices
/-!
What a run of relays submits, reports and counts, by what becomes of each target.

Main statement: `independent_relays`.
-/
namespace OracleDuty.Duty.RelayPrices

section Deliveries

variable {s : Settings} {state : NetworkState}

/-! ### One target -/

/-- A relay submits its call and nothing else. -/
theorem Delivery.submissions_exchanges (d : Delivery) :
    submissions (d.exchanges s) = (d.call? s).toList := by
  have hlookup : submissions (d.lookup s) = [] := by
    unfold Delivery.lookup
    split
    · rfl
    · rfl
  unfold Delivery.exchanges
  cases d.call? s with
  | none => exact hlookup
  | some call =>
    obtain ⟨call, options⟩ := call
    rw [submissions_append, hlookup]
    rfl

/-- A relay counts one submission, unless it fails. -/
theorem Delivery.tally_journal (d : Delivery) :
    tally (d.journal s) .submissions name = [d].countP fun d => (d.failure? s).isNone := by
  rw [List.countP_singleton]
  unfold Delivery.journal Delivery.lines Delivery.complaint Delivery.failure? Delivery.result
  cases d.terms s with
  | error report => rfl
  | ok terms =>
    unfold Delivery.submissionLines
    cases d.mined with
    | error report => rfl
    | ok hash => rfl

/-! ### All targets -/

/-- Each relay submits one call or none. -/
theorem submissions_flatMap (ds : List Delivery) :
    submissions (ds.flatMap (Delivery.exchanges s)) = ds.filterMap (Delivery.call? s) := by
  induction ds with
  | nil => rfl
  | cons d ds ih =>
    rw [List.flatMap_cons, submissions_append, ih, d.submissions_exchanges]
    cases hcall : d.call? s with
    | none => rw [List.filterMap_cons_none hcall, Option.toList_none, List.nil_append]
    | some call => rw [List.filterMap_cons_some hcall, Option.toList_some, List.singleton_append]

theorem tally_flatMap (ds : List Delivery) :
    tally (ds.flatMap (Delivery.journal s)) .submissions name =
      ds.countP fun d => (d.failure? s).isNone := by
  induction ds with
  | nil => rfl
  | cons d ds ih =>
    rw [List.flatMap_cons, tally_append, ih, d.tally_journal, ← List.countP_append]
    rfl

theorem conclusion_eq_ok_iff (ds : List Delivery) :
    conclusion (ds.filterMap (Delivery.failure? s)) = .ok () ↔ ∀ d ∈ ds, d.failure? s = none := by
  rw [← List.filterMap_eq_nil_iff]
  cases ds.filterMap (Delivery.failure? s) with
  | nil => simp [conclusion]
  | cons failure failures => simp [conclusion]

/-- With a flag for each messenger, a run of the node whose turn it is serves those whose flags are set. -/
theorem serve_concludes_of_leads (hleads : Leads state s.node) {stale : List (Relay.Target × Address)}
    {t : List (Exchange Request Answer)} {lines : List Line} {r : Except Report Unit}
    (h : (serve s state stale).run.Concludes t lines r) : ∃ ds : List Delivery,
      ds.map Delivery.recipient = stale ∧ t = ds.flatMap (Delivery.exchanges s) ∧
      r = conclusion (ds.filterMap (Delivery.failure? s)) ∧
      tally lines .submissions name = ds.countP fun d => (d.failure? s).isNone := by
  by_cases hstale : stale = []
  · obtain ⟨rfl, rfl, rfl⟩ := (serve_concludes_iff_of_idle (.inl hstale)).mp h
    subst hstale
    exact ⟨[], rfl, rfl, rfl, rfl⟩
  · obtain ⟨ds, hds, rfl, rfl, rfl⟩ := (serve_concludes_iff_of_leads hstale hleads).mp h
    refine ⟨ds, hds, rfl, rfl, ?_⟩
    rw [← tally_flatMap, ← List.singleton_append, tally_append]
    exact Nat.zero_add _

end Deliveries

/-- With a flag for each messenger, the node whose turn it is submits one call for each messenger whose flag
is set and whose fee is known, in their order, and each by its own fee, whatever becomes of the others. It
succeeds if all do, and otherwise lists those that failed with their reasons; and it counts those that
succeeded. Without a flag for each messenger it submits nothing. -/
theorem independent_relays {s : Settings} {state : NetworkState} (hleads : Leads state s.node)
    (flags : List Bool) :
    (flags.length = s.messengers.length → s.messengers ≠ [] →
      (∀ t lines r,
        (RelayPrices.run s state).run.Concludes (⟨.stale s.messengers state.block, .ok flags⟩ :: t) lines r →
        ∃ ds : List Delivery, ds.map Delivery.recipient = flagged s.messengers flags ∧
          t = ds.flatMap (Delivery.exchanges s) ∧
          submissions t = ds.filterMap (Delivery.call? s) ∧
          r = conclusion (ds.filterMap (Delivery.failure? s)) ∧
          (r = .ok () ↔ ∀ d ∈ ds, d.failure? s = none) ∧
          tally lines .submissions name = ds.countP fun d => (d.failure? s).isNone) ∧
      ∀ ds : List Delivery, ds.map Delivery.recipient = flagged s.messengers flags → ∃ lines,
        (RelayPrices.run s state).run.Concludes
          (⟨.stale s.messengers state.block, .ok flags⟩ :: ds.flatMap (Delivery.exchanges s)) lines
          (conclusion (ds.filterMap (Delivery.failure? s)))) ∧
    (flags.length ≠ s.messengers.length → s.messengers ≠ [] → ∀ t r,
      (∃ lines, (RelayPrices.run s state).run.Concludes
        (⟨.stale s.messengers state.block, .ok flags⟩ :: t) lines r) ↔
      t = [] ∧ r = .error (.of (.relay (.flagCountMismatch s.messengers.length flags.length)))) ∧
    (s.messengers = [] → ∀ t r,
      (∃ lines, (RelayPrices.run s state).run.Concludes t lines r) ↔ t = [] ∧ r = .ok ()) := by
  refine ⟨?_, ?_, ?_⟩
  · intro hflags hmessengers
    refine ⟨?_, ?_⟩
    · intro t lines r hrun
      have hserve := (run_concludes_iff_of_flags hmessengers hflags).mp hrun
      obtain ⟨ds, hds, rfl, rfl, htally⟩ := serve_concludes_of_leads hleads hserve
      exact ⟨ds, hds, rfl, submissions_flatMap ds, rfl, conclusion_eq_ok_iff ds, htally⟩
    · intro ds hds
      obtain ⟨lines, hserve⟩ := exists_serve_concludes hleads ds
      rw [hds] at hserve
      exact ⟨lines, (run_concludes_iff_of_flags hmessengers hflags).mpr hserve⟩
  · intro hflags hmessengers t r
    simp only [run_concludes_iff_of_mismatch hmessengers hflags, exists_and_left, exists_eq_left]
  · intro hmessengers t r
    simp only [run_concludes_iff_of_no_messengers hmessengers, exists_and_left, exists_eq_left]

namespace Relays.Sample

/-- The settings of the only member. No fee is configured. -/
def settings : Settings where
  node := 11
  store := ⟨"", "mainnet"⟩
  treeMode := .download
  fees := ⟨none, none⟩
  twapPool := none
  messengers := [(.zkSyncEra, 20), (.polygon, 21), (.arbitrum, 22), (.base, 23)]
  maxWalkback := none

def state : NetworkState where
  block := 80
  slot := 170
  timing := ⟨1000, 12, 32⟩
  interval := ⟨5, 1100, 1000⟩
  prices := ⟨false, 0, 0⟩
  members := [⟨11, 0⟩]

def deliveries : List Delivery := [
  ⟨.zkSyncEra, 20, .error (.of (.plain "timeout")), .ok 1⟩,
  ⟨.arbitrum, 22, .ok 30, .error (.of (.plain "nonce too low"))⟩,
  ⟨.base, 23, .ok 30, .ok 2⟩]

theorem leads : Leads state settings.node := ⟨0, by decide, by decide⟩

end Relays.Sample

theorem independent_relays_sample : Leads Relays.Sample.state Relays.Sample.settings.node ∧
    ∃ t lines, (RelayPrices.run Relays.Sample.settings Relays.Sample.state).run.Concludes
        (⟨.stale Relays.Sample.settings.messengers 80, .ok [true, false, true, true]⟩ :: t) lines
        (.error (.of (.relay (.partially
          [(.zkSyncEra, "Failed to estimate max fee"), (.arbitrum, "nonce too low")])))) ∧
      (submissions t).map Prod.fst = [
        .submitRate .arbitrum 22 (Relay.arbitrumTicket 30).1, .submitRate .base 23 .plain] := by
  refine ⟨Relays.Sample.leads, ?_⟩
  obtain ⟨hserved, -⟩ := independent_relays Relays.Sample.leads [true, false, true, true]
  obtain ⟨-, hexists⟩ := hserved rfl (List.cons_ne_nil _ _)
  obtain ⟨lines, hrun⟩ := hexists Relays.Sample.deliveries rfl
  exact ⟨_, lines, hrun, rfl⟩

end OracleDuty.Duty.RelayPrices
