import OracleDuty.Duty.RelayPrices
import OracleDuty.Proofs.Duty.Action
/-!
Relays of prices taken apart: what is asked, written and answered for each target, and how the targets make
up a whole run.

Main statements: `relayAll_concludes_iff`, by which targets are served one after the other whatever becomes of
them, and `run_concludes_iff`, by which only a node whose turn it is serves any.
-/
namespace OracleDuty.Duty.RelayPrices

/-- A relay to one target: what the fee lookup and the submission come to, where they are made. -/
structure Delivery where
  target : Relay.Target
  messenger : Address
  fee : Except Report Wei
  mined : Except Report Digest

namespace Delivery

variable (s : Settings) (d : Delivery)

def recipient : Relay.Target × Address := (d.target, d.messenger)

def asksFee : Bool :=
  match d.target with
  | .arbitrum => true
  | .zkSyncEra => s.fees.maxFeePerGas.isNone
  | _ => false

def suggested : Except Report Wei := d.fee.mapError (Report.noting "Failed to estimate max fee")

def terms : Except Report (Relay.CallParams × Word) :=
  match d.target with
  | .arbitrum => d.suggested.map Relay.arbitrumTicket
  | .zkSyncEra =>
    match s.fees.maxFeePerGas with
    | some fee => .ok (Relay.zkSyncEraTransaction fee)
    | none => d.suggested.map Relay.zkSyncEraTransaction
  | _ => .ok (.plain, 0)

/-- The call that is submitted, if any, under the configured fee caps. -/
def call? : Option (Call × TxOptions) :=
  match d.terms s with
  | .ok (params, value) => some (.submitRate d.target d.messenger params, s.options value)
  | .error _ => none

def result : Except Report Unit :=
  match d.terms s with
  | .ok _ => d.mined.map fun _ => ()
  | .error report => .error report

/-- The target with the reason, if the relay has failed. -/
def failure? : Option (Relay.Target × String) :=
  match d.result s with
  | .ok _ => none
  | .error report => some (d.target, report.text)

def lookup : List (Exchange Request Answer) :=
  match d.asksFee s with
  | true => [⟨.suggestedFee, d.fee⟩]
  | false => []

def exchanges : List (Exchange Request Answer) :=
  match d.call? s with
  | some (call, options) => d.lookup s ++ [⟨.submit call options, d.mined⟩]
  | none => d.lookup s

def submissionLines (value : Word) : List Line :=
  ⟨[], .event (Log.event .relay .debug "Relaying prices"
    [("target", .shown d.target.name), ("value", .shown value.decimal)])⟩ ::
  match d.mined with
  | .error _ => []
  | .ok hash => [
    ⟨[], .count .submissions name⟩,
    ⟨[], .event (Log.event .relay .info "Relayed prices"
      [("target", .shown d.target.name), ("tx_hash", .shown (Digest.text hash))])⟩]

def lines : List Line :=
  match d.terms s with
  | .ok (_, value) => d.submissionLines value
  | .error _ => []

def complaint : List Line :=
  match d.result s with
  | .ok _ => []
  | .error report => [⟨[], .event (Log.event .relay .error "Failed to relay prices"
    (("target", .shown d.target.name) :: report.fields))⟩]

def journal : List Line := d.lines s ++ d.complaint s

/-- A relay fails for want of terms only if it has asked for the fee. -/
theorem exchanges_ne_nil : d.exchanges s ≠ [] := by
  obtain ⟨target, messenger, fee, mined⟩ := d
  unfold exchanges call?
  cases target with
  | arbitrum => cases fee <;> exact List.cons_ne_nil _ _
  | zkSyncEra =>
    simp only [terms, lookup, asksFee]
    cases s.fees.maxFeePerGas with
    | some configured => exact List.cons_ne_nil _ _
    | none => cases fee <;> exact List.cons_ne_nil _ _
  | optimism => exact List.cons_ne_nil _ _
  | polygon => exact List.cons_ne_nil _ _
  | base => exact List.cons_ne_nil _ _

end Delivery

variable {s : Settings} {t : List (Exchange Request Answer)} {lines : List Line}

/-! ### One target -/

/-- The suggestion is asked for once, and its failure is noted. -/
theorem suggestedFee_concludes_iff {r : Except Report Wei} :
    suggestedFee.run.Concludes t lines r ↔ ∃ fee : Except Report Wei, t = [⟨.suggestedFee, fee⟩] ∧
      lines = [] ∧ r = fee.mapError (Report.noting "Failed to estimate max fee") := by
  unfold suggestedFee
  rw [concludes_noting]
  constructor
  · rintro ⟨fee, hfee, rfl⟩
    obtain ⟨rfl, rfl⟩ := concludes_request.mp hfee
    exact ⟨fee, rfl, rfl, rfl⟩
  · rintro ⟨fee, rfl, rfl, rfl⟩
    exact ⟨fee, concludes_request.mpr ⟨rfl, rfl⟩, rfl⟩

/-- Terms that are computed from the suggested fee. -/
theorem ofSuggestedFee_concludes_iff {α : Type} {f : Wei → α} {r : Except Report α} :
    (suggestedFee >>= fun fee => pure (f fee)).run.Concludes t lines r ↔ ∃ fee : Except Report Wei,
      t = [⟨.suggestedFee, fee⟩] ∧ lines = [] ∧
        r = (fee.mapError (Report.noting "Failed to estimate max fee")).map f := by
  rw [concludes_run_bind]
  constructor
  · rintro (⟨e, hfee, rfl⟩ | ⟨a, u, v, k, m, rfl, rfl, hfee, hdone⟩)
    · obtain ⟨fee, rfl, rfl, hr⟩ := suggestedFee_concludes_iff.mp hfee
      refine ⟨fee, rfl, rfl, ?_⟩
      rw [← hr]
      rfl
    · obtain ⟨fee, rfl, rfl, hr⟩ := suggestedFee_concludes_iff.mp hfee
      obtain ⟨rfl, rfl, rfl⟩ := Program.concludes_done.mp hdone
      refine ⟨fee, rfl, rfl, ?_⟩
      rw [← hr]
      rfl
  · rintro ⟨fee, rfl, rfl, rfl⟩
    have hfee := suggestedFee_concludes_iff.mpr ⟨fee, rfl, rfl, rfl⟩
    cases fee with
    | error e => exact .inl ⟨_, hfee, rfl⟩
    | ok fee => exact .inr ⟨fee, _, [], [], [], rfl, rfl, hfee, .done _⟩

/-- Each way in which the terms can be found is the one of a delivery. -/
theorem terms_concludes_iff {target : Relay.Target} (messenger : Address) (mined : Except Report Digest)
    {r : Except Report (Relay.CallParams × Word)} :
    (terms s target).run.Concludes t lines r ↔ ∃ fee : Except Report Wei,
      t = Delivery.lookup s ⟨target, messenger, fee, mined⟩ ∧ lines = [] ∧
        r = Delivery.terms s ⟨target, messenger, fee, mined⟩ := by
  -- no fee is looked up for terms that are known
  have hknown : ∀ known : Relay.CallParams × Word,
      (pure known : Action _).run.Concludes t lines r ↔
        ∃ fee : Except Report Wei, t = [] ∧ lines = [] ∧ r = .ok known := by
    intro known
    refine Program.concludes_done.trans ?_
    constructor
    · rintro ⟨rfl, rfl, rfl⟩
      exact ⟨.ok 0, rfl, rfl, rfl⟩
    · rintro ⟨-, rfl, rfl, rfl⟩
      exact ⟨rfl, rfl, rfl⟩
  cases target with
  | arbitrum => exact ofSuggestedFee_concludes_iff
  | zkSyncEra =>
    simp only [terms, configuredFee, Delivery.lookup, Delivery.terms, Delivery.asksFee]
    cases hfee : s.fees.maxFeePerGas with
    | some fee => exact hknown _
    | none => exact ofSuggestedFee_concludes_iff
  | optimism => exact hknown _
  | polygon => exact hknown _
  | base => exact hknown _

/-- Once the terms are known the call is submitted, once, and counted if it succeeds. -/
theorem submit_concludes_iff (s : Settings) (target : Relay.Target) (messenger : Address)
    (fee : Except Report Wei) (params : Relay.CallParams) (value : Word) {r : Except Report Unit} :
    (do
      Action.log .relay .debug "Relaying prices"
        [("target", .shown target.name), ("value", .shown value.decimal)]
      let hash ← ask (Program.request
        (Request.submit (.submitRate target messenger params) (s.options value)))
      Action.count .submissions name
      Action.log .relay .info "Relayed prices"
        [("target", .shown target.name), ("tx_hash", .shown (Digest.text hash))] :
        Action Unit).run.Concludes t lines r ↔ ∃ mined : Except Report Digest,
      t = [⟨.submit (.submitRate target messenger params) (s.options value), mined⟩] ∧
        lines = Delivery.submissionLines ⟨target, messenger, fee, mined⟩ value ∧
          r = mined.map fun _ => () := by
  rw [concludes_log_bind]
  constructor
  · rintro ⟨lines, rfl, h⟩
    rw [concludes_run_bind] at h
    obtain ⟨e, hasked, rfl⟩ | ⟨hash, u, v, k, m, rfl, rfl, hasked, hafter⟩ := h
    · obtain ⟨rfl, rfl⟩ := concludes_request.mp hasked
      exact ⟨.error e, rfl, rfl, rfl⟩
    · obtain ⟨rfl, rfl⟩ := concludes_request.mp hasked
      obtain ⟨rest, rfl, hlog⟩ := concludes_count_bind.mp hafter
      obtain ⟨rfl, rfl, rfl⟩ := concludes_log.mp hlog
      exact ⟨.ok hash, rfl, rfl, rfl⟩
  · rintro ⟨mined, rfl, rfl, rfl⟩
    have hasked : (Program.request (Request.submit (.submitRate target messenger params)
        (s.options value)) : Course _).Concludes
        [⟨.submit (.submitRate target messenger params) (s.options value), mined⟩] [] mined :=
      concludes_request.mpr ⟨rfl, rfl⟩
    refine ⟨_, rfl, concludes_run_bind.mpr ?_⟩
    cases mined with
    | error e => exact .inl ⟨e, hasked, rfl⟩
    | ok hash =>
      refine .inr ⟨hash, _, [], [], _, rfl, rfl, hasked, ?_⟩
      exact concludes_count_bind.mpr ⟨_, rfl, concludes_log.mpr ⟨rfl, rfl, rfl⟩⟩

/-- A relay looks up the fee if its terms need one, and submits its call if the terms are known. -/
theorem relay_concludes_iff {target : Relay.Target} {messenger : Address} {r : Except Report Unit} :
    (relay s target messenger).run.Concludes t lines r ↔ ∃ d : Delivery, d.recipient = (target, messenger) ∧
      t = d.exchanges s ∧ lines = d.lines s ∧ r = d.result s := by
  unfold relay
  rw [concludes_run_bind]
  -- nothing is submitted if the terms are not known, and then any answer about a submission will do
  constructor
  · rintro (⟨e, hterms, rfl⟩ | ⟨⟨params, value⟩, u, v, k, m, rfl, rfl, hterms, hsubmit⟩)
    · obtain ⟨fee, rfl, rfl, hr⟩ := (terms_concludes_iff messenger (.error e)).mp hterms
      refine ⟨⟨target, messenger, fee, .error e⟩, rfl, ?_, ?_, ?_⟩
      · simp only [Delivery.exchanges, Delivery.call?, ← hr]
      · simp only [Delivery.lines, ← hr]
      · simp only [Delivery.result, ← hr]
    · obtain ⟨fee, rfl, rfl, hr⟩ := (terms_concludes_iff messenger (.ok 0)).mp hterms
      obtain ⟨mined, rfl, rfl, rfl⟩ := (submit_concludes_iff s _ _ fee _ _).mp hsubmit
      replace hr : .ok (params, value) = Delivery.terms s ⟨target, messenger, fee, mined⟩ := hr
      refine ⟨⟨target, messenger, fee, mined⟩, rfl, ?_, ?_, ?_⟩
      · simp only [Delivery.exchanges, Delivery.call?, ← hr]
        rfl
      · simp only [Delivery.lines, ← hr, List.nil_append]
      · simp only [Delivery.result, ← hr]
  · rintro ⟨⟨target, messenger, fee, mined⟩, ⟨⟩, rfl, rfl, rfl⟩
    have hterms : (terms s target).run.Concludes (Delivery.lookup s ⟨target, messenger, fee, mined⟩) []
        (Delivery.terms s ⟨target, messenger, fee, mined⟩) :=
      (terms_concludes_iff messenger mined).mpr ⟨fee, rfl, rfl, rfl⟩
    simp only [Delivery.exchanges, Delivery.call?, Delivery.lines, Delivery.result]
    cases hr : Delivery.terms s ⟨target, messenger, fee, mined⟩ with
    | error report =>
      rw [hr] at hterms
      exact .inl ⟨report, hterms, rfl⟩
    | ok terms =>
      obtain ⟨params, value⟩ := terms
      rw [hr] at hterms
      have hsubmit := (submit_concludes_iff s target messenger fee params value).mpr
        ⟨mined, rfl, rfl, rfl⟩
      exact .inr ⟨_, _, _, [], _, rfl, rfl, hterms, hsubmit⟩

/-! ### All targets -/

/-- Targets are served in their order, each with a relay of its own, whatever becomes of the others. -/
theorem relayAll_concludes_iff {targets : List (Relay.Target × Address)}
    {failures : List (Relay.Target × String)} :
    (relayAll s targets).Concludes t lines failures ↔ ∃ ds : List Delivery,
      ds.map Delivery.recipient = targets ∧ t = ds.flatMap (Delivery.exchanges s) ∧
      lines = ds.flatMap (Delivery.journal s) ∧ failures = ds.filterMap (Delivery.failure? s) := by
  constructor
  · intro h
    induction targets generalizing t lines failures with
    | nil =>
      obtain ⟨rfl, rfl, rfl⟩ := Program.concludes_done.mp h
      exact ⟨[], rfl, rfl, rfl, rfl⟩
    | cons first rest ih =>
      obtain ⟨target, messenger⟩ := first
      obtain ⟨r, u, v, k, m, rfl, rfl, hfirst, hrest⟩ := Program.concludes_bind.mp h
      obtain ⟨d, ⟨⟩, rfl, rfl, rfl⟩ := relay_concludes_iff.mp hfirst
      cases hresult : d.result s with
      | ok _ =>
        rw [hresult] at hrest
        obtain ⟨ds, rfl, rfl, rfl, rfl⟩ := ih hrest
        refine ⟨d :: ds, rfl, rfl, ?_, ?_⟩
        · simp [Delivery.journal, Delivery.complaint, hresult]
        · simp [Delivery.failure?, hresult]
      | error report =>
        -- the failure is written and listed, and the others are served all the same
        rw [hresult] at hrest
        obtain ⟨_, rfl, hafter⟩ := Program.concludes_write_bind.mp hrest
        obtain ⟨_, _, _, _, _, rfl, rfl, hothers, hdone⟩ := Program.concludes_bind.mp hafter
        obtain ⟨rfl, rfl, rfl⟩ := Program.concludes_done.mp hdone
        obtain ⟨ds, rfl, rfl, rfl, rfl⟩ := ih hothers
        refine ⟨d :: ds, rfl, ?_, ?_, ?_⟩
        · rw [List.append_nil]
          rfl
        · simp [Delivery.journal, Delivery.complaint, hresult]
        · simp [Delivery.failure?, hresult]
  · rintro ⟨ds, rfl, rfl, rfl, rfl⟩
    induction ds with
    | nil => exact .done []
    | cons d ds ih =>
      have hfirst : (relay s d.target d.messenger).run.Concludes (d.exchanges s) (d.lines s) (d.result s) :=
        relay_concludes_iff.mpr ⟨d, rfl, rfl, rfl, rfl⟩
      rw [List.flatMap_cons, List.flatMap_cons, Delivery.journal, List.append_assoc]
      refine Program.concludes_bind.mpr ⟨_, _, _, _, _, rfl, rfl, hfirst, ?_⟩
      cases hresult : d.result s with
      | ok _ =>
        simp only [Delivery.complaint, Delivery.failure?, hresult, List.filterMap_cons, List.nil_append]
        exact ih
      | error report =>
        simp only [Delivery.complaint, Delivery.failure?, hresult, List.filterMap_cons]
        refine Program.concludes_write_bind.mpr ⟨_, rfl, Program.concludes_bind.mpr ?_⟩
        exact ⟨_, _, [], _, [], (List.append_nil _).symm, (List.append_nil _).symm, ih, .done _⟩

/-! ### A whole run -/

/-- The messengers whose flags are set. -/
def flagged (messengers : List (Relay.Target × Address)) (flags : List Bool) :
    List (Relay.Target × Address) := ((messengers.zip flags).filter Prod.snd).map Prod.fst

/-- What a run comes to by its failures. -/
def conclusion : List (Relay.Target × String) → Except Report Unit
  | [] => .ok ()
  | failures => .error (.of (.relay (.partially failures)))

/-- Whether the turn is the node's at the block of a state. -/
def Leads (state : NetworkState) (node : Address) : Prop :=
  ∃ index, Turn.indexOf? state.members node = some index ∧
    Turn.isMine index state.block Turn.blocksPerTurn (UInt64.ofNat state.members.length) = true

/-- What is written before targets are served. -/
def opening (stale : List (Relay.Target × Address)) : Line :=
  ⟨[], .event (Log.event .relay .info "Relaying stale prices"
    [("targets", .unsigned (UInt64.ofNat stale.length))])⟩

variable {state : NetworkState} {flags : List Bool} {r : Except Report Unit}

def checked (s : Settings) : Except Report (List Bool) → Except Report (List (Relay.Target × Address))
  | .error report => .error (report.noting "Failed to check messenger rates")
  | .ok flags =>
    if flags.length = s.messengers.length then .ok (flagged s.messengers flags)
    else .error (.of (.relay (.flagCountMismatch s.messengers.length flags.length)))

/-- Finding the messengers is guided by any script that lets it ask which of them hold a rate that is out of
date. -/
theorem staleMessengers_reads {S : Type} {k : Script Request Answer S} (s : Settings) (state : NetworkState)
    (m : S) (hstale : k.asks m (.stale s.messengers state.block)) :
    k.Guides m (staleMessengers s state) (fun _ => True) fun _ _ => True := by
  unfold staleMessengers
  rw [guides_bind, guides_noting]
  refine ⟨hstale, ?_⟩
  rintro (e | flags)
  · trivial
  · change k.Guides _ (ite _ _ _) _ _
    split
    · trivial
    · trivial

/-- The flags are read in one request, for all messengers at one block. -/
theorem staleMessengers_concludes_iff {r : Except Report (List (Relay.Target × Address))} :
    (staleMessengers s state).run.Concludes t lines r ↔ ∃ answer : Except Report (List Bool),
      t = [⟨.stale s.messengers state.block, answer⟩] ∧ lines = [] ∧ r = checked s answer := by
  unfold staleMessengers
  rw [concludes_run_bind]
  simp only [concludes_noting]
  constructor
  · -- the request fails, or its flags are held against the number of messengers
    rintro (⟨e, ⟨answer, hasked, hr⟩, rfl⟩ | ⟨flags, u, v, k, m, rfl, rfl, ⟨answer, hasked, hr⟩, hrest⟩)
    · obtain ⟨rfl, rfl⟩ := concludes_request.mp hasked
      cases answer with
      | error report =>
        cases hr
        exact ⟨.error report, rfl, rfl, rfl⟩
      | ok flags => cases hr
    · obtain ⟨rfl, rfl⟩ := concludes_request.mp hasked
      cases answer with
      | error report => cases hr
      | ok flags =>
        cases hr
        refine ⟨.ok flags, ?_⟩
        unfold checked
        dsimp only at hrest ⊢
        split at hrest
        next h =>
          obtain ⟨rfl, rfl, rfl⟩ := Program.concludes_done.mp hrest
          rw [if_neg h]
          exact ⟨rfl, rfl, rfl⟩
        next h =>
          obtain ⟨rfl, rfl, rfl⟩ := Program.concludes_done.mp hrest
          rw [if_pos (Decidable.not_not.mp h)]
          exact ⟨rfl, rfl, rfl⟩
  · rintro ⟨answer, rfl, rfl, rfl⟩
    have hasked : (Program.request (Request.stale s.messengers state.block) : Course _).Concludes
        [⟨.stale s.messengers state.block, answer⟩] [] answer := concludes_request.mpr ⟨rfl, rfl⟩
    cases answer with
    | error report => exact .inl ⟨_, ⟨_, hasked, rfl⟩, rfl⟩
    | ok flags =>
      refine .inr ⟨flags, _, [], [], [], rfl, rfl, ⟨_, hasked, rfl⟩, ?_⟩
      unfold checked
      dsimp only
      by_cases h : flags.length = s.messengers.length
      · rw [if_neg (Decidable.not_not.mpr h), if_pos h]
        exact .done _
      · rw [if_pos h, if_neg h]
        exact .done _

def serve (s : Settings) (state : NetworkState) (stale : List (Relay.Target × Address)) : Action Unit := do
  if stale.isEmpty then
    Action.log .relay .debug "All relayed rates are current, returning safely." []
  else
    match Turn.indexOf? state.members s.node with
    | none => Action.log .relay .debug "Node is not an oracle member, returning safely." []
    | some index =>
      if !Turn.isMine index state.block Turn.blocksPerTurn (UInt64.ofNat state.members.length) then
        Action.log .relay .debug "Not this node's turn to relay, returning safely."
          [("block", .unsigned state.block), ("self_index", .unsigned index)]
      else
        Action.log .relay .info "Relaying stale prices"
          [("targets", .unsigned (UInt64.ofNat stale.length))]
        match ← ExceptT.lift (relayAll s stale) with
        | [] => return ()
        | failures => Action.fail (.relay (.partially failures))

theorem run_eq (h : s.messengers ≠ []) : run s state = staleMessengers s state >>= serve s state := by
  unfold run
  rw [if_neg (by simpa using h)]
  rfl

def pause (s : Settings) (state : NetworkState) (stale : List (Relay.Target × Address)) : Line :=
  if stale.isEmpty then
    ⟨[], .event (Log.event .relay .debug "All relayed rates are current, returning safely." [])⟩
  else
    match Turn.indexOf? state.members s.node with
    | none => ⟨[], .event (Log.event .relay .debug "Node is not an oracle member, returning safely." [])⟩
    | some index => ⟨[], .event (Log.event .relay .debug "Not this node's turn to relay, returning safely."
        [("block", .unsigned state.block), ("self_index", .unsigned index)])⟩

/-- With nothing out of date, or out of its turn, the node writes one line and asks for nothing. -/
theorem serve_concludes_iff_of_idle {stale : List (Relay.Target × Address)}
    (h : stale = [] ∨ ¬Leads state s.node) : (serve s state stale).run.Concludes t lines r ↔
      t = [] ∧ lines = [pause s state stale] ∧ r = .ok () := by
  unfold serve pause
  split
  next => exact concludes_log
  next hstale =>
  split
  next => exact concludes_log
  next index hindex =>
  have hmine : Turn.isMine index state.block Turn.blocksPerTurn (UInt64.ofNat state.members.length) =
      false := by
    obtain rfl | hleads := h
    · exact absurd rfl hstale
    · apply Bool.eq_false_iff.mpr
      intro hmine
      exact hleads ⟨index, hindex, hmine⟩
  rw [hmine]
  exact concludes_log

/-- Only a node whose turn it is serves any messengers, and it serves all whose rates are out of date. -/
theorem serve_concludes_iff_of_leads {stale : List (Relay.Target × Address)} (hstale : stale ≠ [])
    (h : Leads state s.node) : (serve s state stale).run.Concludes t lines r ↔ ∃ ds : List Delivery,
      ds.map Delivery.recipient = stale ∧ t = ds.flatMap (Delivery.exchanges s) ∧
      lines = opening stale :: ds.flatMap (Delivery.journal s) ∧
      r = conclusion (ds.filterMap (Delivery.failure? s)) := by
  obtain ⟨index, hindex, hmine⟩ := h
  unfold serve
  rw [if_neg (by simpa using hstale), hindex]
  dsimp only
  rw [hmine, if_neg (by simp), concludes_log_bind]
  have hend : ∀ failures : List (Relay.Target × String), ∀ {t lines},
      (match failures with
        | [] => return ()
        | failures => Action.fail (.relay (.partially failures)) : Action Unit).run.Concludes t lines r ↔
      t = [] ∧ lines = [] ∧ conclusion failures = r := by
    intro failures t lines
    cases failures with
    | nil => exact Program.concludes_done
    | cons failure failures => exact Program.concludes_done
  constructor
  · rintro ⟨rest, rfl, hserve⟩
    obtain ⟨failures, _, _, _, _, rfl, rfl, hall, hrest⟩ := concludes_lift_bind.mp hserve
    obtain ⟨rfl, rfl, rfl⟩ := (hend failures).mp hrest
    obtain ⟨ds, rfl, rfl, rfl, rfl⟩ := relayAll_concludes_iff.mp hall
    exact ⟨ds, rfl, List.append_nil _, congrArg (_ :: ·) (List.append_nil _), rfl⟩
  · rintro ⟨ds, hds, rfl, rfl, hr⟩
    have hall : (relayAll s stale).Concludes (ds.flatMap (Delivery.exchanges s))
        (ds.flatMap (Delivery.journal s)) (ds.filterMap (Delivery.failure? s)) :=
      relayAll_concludes_iff.mpr ⟨ds, hds, rfl, rfl, rfl⟩
    refine ⟨_, rfl, concludes_lift_bind.mpr ?_⟩
    exact ⟨_, _, [], _, [], (List.append_nil _).symm, (List.append_nil _).symm, hall,
      (hend _).mpr ⟨rfl, rfl, hr.symm⟩⟩

/-- Whatever becomes of the relays to the messengers, there is a run of the node whose turn it is in which
that becomes of them. -/
theorem exists_serve_concludes (h : Leads state s.node) (ds : List Delivery) :
    ∃ lines, (serve s state (ds.map Delivery.recipient)).run.Concludes
      (ds.flatMap (Delivery.exchanges s)) lines (conclusion (ds.filterMap (Delivery.failure? s))) := by
  by_cases hds : ds = []
  · subst hds
    exact ⟨_, (serve_concludes_iff_of_idle (.inl rfl)).mpr ⟨rfl, rfl, rfl⟩⟩
  · have hstale : ds.map Delivery.recipient ≠ [] := by simpa using hds
    exact ⟨_, (serve_concludes_iff_of_leads hstale h).mpr ⟨ds, rfl, rfl, rfl, rfl⟩⟩

/-- Without messengers nothing is asked. -/
theorem run_concludes_iff_of_no_messengers (h : s.messengers = []) :
    (run s state).run.Concludes t lines r ↔ t = [] ∧
      lines = [⟨[], .event (Log.event .relay .debug "No price messengers configured, returning safely." [])⟩] ∧
      r = .ok () := by
  unfold run
  rw [if_pos (by simp [h])]
  exact concludes_log

/-- A run asks which rates are out of date, and serves the messengers that the answer tells of. -/
theorem run_concludes_iff (h : s.messengers ≠ []) :
    (run s state).run.Concludes t lines r ↔ ∃ answer rest,
      t = ⟨.stale s.messengers state.block, answer⟩ :: rest ∧
      ((∃ report, checked s answer = .error report ∧ rest = [] ∧ lines = [] ∧ r = .error report) ∨
        ∃ stale, checked s answer = .ok stale ∧ (serve s state stale).run.Concludes rest lines r) := by
  rw [run_eq h, concludes_run_bind]
  constructor
  · rintro (⟨report, hstale, rfl⟩ | ⟨stale, u, v, k, m, rfl, rfl, hstale, hserve⟩)
    · obtain ⟨answer, rfl, rfl, hr⟩ := staleMessengers_concludes_iff.mp hstale
      exact ⟨answer, [], rfl, .inl ⟨report, hr.symm, rfl, rfl, rfl⟩⟩
    · obtain ⟨answer, rfl, rfl, hr⟩ := staleMessengers_concludes_iff.mp hstale
      exact ⟨answer, v, rfl, .inr ⟨stale, hr.symm, hserve⟩⟩
  · rintro ⟨answer, rest, rfl, ⟨report, hr, rfl, rfl, rfl⟩ | ⟨stale, hr, hserve⟩⟩
    · exact .inl ⟨report, staleMessengers_concludes_iff.mpr ⟨answer, rfl, rfl, hr.symm⟩, rfl⟩
    · exact .inr ⟨stale, _, rest, [], lines, rfl, rfl,
        staleMessengers_concludes_iff.mpr ⟨answer, rfl, rfl, hr.symm⟩, hserve⟩

/-- What becomes of a run whose messengers have a flag each. -/
theorem run_concludes_iff_of_flags (h : s.messengers ≠ []) (hflags : flags.length = s.messengers.length) :
    (run s state).run.Concludes (⟨.stale s.messengers state.block, .ok flags⟩ :: t) lines r ↔
      (serve s state (flagged s.messengers flags)).run.Concludes t lines r := by
  have hchecked : checked s (.ok flags) = .ok (flagged s.messengers flags) := if_pos hflags
  rw [run_concludes_iff h]
  constructor
  · rintro ⟨answer, rest, ⟨⟩, ⟨report, hr, -⟩ | ⟨stale, hr, hserve⟩⟩
    · rw [hchecked] at hr
      cases hr
    · rw [hchecked] at hr
      cases hr
      exact hserve
  · intro hserve
    exact ⟨_, t, rfl, .inr ⟨_, hchecked, hserve⟩⟩

/-- A run whose messengers do not have a flag each is over. -/
theorem run_concludes_iff_of_mismatch (h : s.messengers ≠ []) (hflags : flags.length ≠ s.messengers.length) :
    (run s state).run.Concludes (⟨.stale s.messengers state.block, .ok flags⟩ :: t) lines r ↔
      t = [] ∧ lines = [] ∧
        r = .error (.of (.relay (.flagCountMismatch s.messengers.length flags.length))) := by
  have hchecked : checked s (.ok flags) =
      .error (.of (.relay (.flagCountMismatch s.messengers.length flags.length))) := if_neg hflags
  rw [run_concludes_iff h]
  constructor
  · rintro ⟨answer, rest, ⟨⟩, ⟨report, hr, rfl, rfl, rfl⟩ | ⟨stale, hr, hserve⟩⟩
    · rw [hchecked] at hr
      cases hr
      exact ⟨rfl, rfl, rfl⟩
    · rw [hchecked] at hr
      cases hr
  · rintro ⟨rfl, rfl, rfl⟩
    exact ⟨_, [], rfl, .inl ⟨_, hchecked, rfl, rfl, rfl⟩⟩

/-- No messenger is out of date just when no flag is set. -/
theorem flagged_eq_nil_iff {messengers : List (Relay.Target × Address)}
    (h : flags.length = messengers.length) : flagged messengers flags = [] ↔ true ∉ flags := by
  induction messengers generalizing flags with
  | nil =>
    obtain rfl := List.eq_nil_of_length_eq_zero h
    simp [flagged]
  | cons messenger messengers ih =>
    cases flags with
    | nil => cases h
    | cons flag flags =>
      have hrest := ih (Nat.succ.inj h)
      cases flag with
      | true => simp [flagged]
      | false =>
        rw [List.mem_cons, not_or]
        simpa [flagged] using hrest

end OracleDuty.Duty.RelayPrices
