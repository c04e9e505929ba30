import OracleDuty.Duty.SubmitPrices
import OracleDuty.Proofs.Duty.Action
/-!
The phases of a price execution: what it asks in each, and the phase that an answer leads to.

Main statements: `execute_follows`, by which every request of an execution is the one of its phase, and
`launch_reads`.
-/
namespace OracleDuty.Duty.SubmitPrices

inductive Phase where
  | observing
  | checking (price : Word)
  | checkingOthers (price : Word)
  | submitting (price : Word)
  | ended

namespace Phase

def request? (s : Settings) (j : Job) : Phase → Option Request
  | observing => s.twapPool.map fun pool => .observe pool [Price.window, 0] j.block
  | checking price => some (.flag
      (Submission.key .prices s.node (RewardsTree.word j.block) (some price)) none)
  | checkingOthers _ => some (.flag
      (Submission.key .prices s.node (RewardsTree.word j.block) none) none)
  | submitting price => some (.submit (.submitPrices (RewardsTree.word j.block) price) (s.options 0))
  | ended => none

/-- The phase that an answer leads to. A record of another price is no hindrance. -/
def next : Phase → (q : Request) → Answer q → Phase
  | observing, .observe .., .ok cumulatives =>
    match Price.averageTick cumulatives Price.window with
    | .ok tick => checking (Price.ofTick tick)
    | .error _ => ended
  | checking price, .flag _ _, .ok false => checkingOthers price
  | checkingOthers price, .flag _ _, .ok _ => submitting price
  | _, _, _ => ended

end Phase

def script (s : Settings) (j : Job) : Script Request Answer Phase where
  asks m q := m.request? s j = some q
  next := Phase.next

variable {s : Settings} {j : Job}

/-- Without a pool there is nothing to observe, and an execution is over as it begins. -/
theorem quiet_observing (h : s.twapPool = none) : (script s j).Quiet .observing := by
  intro q hq
  simp [script, Phase.request?, h] at hq

theorem quiet_ended : (script s j).Quiet .ended := by
  intro q hq
  simp [script, Phase.request?] at hq

/-- An average that cannot be taken ends the execution, and any other one gives the price. -/
theorem ofTick_guides (pool : Address) (seconds : List UInt32) (block : UInt64)
    (cumulatives : List Int64) :
    (script s j).Guides (Phase.next .observing (.observe pool seconds block) (.ok cumulatives))
      (Action.ofExcept .price (Price.averageTick cumulatives Price.window) >>= fun tick =>
        pure (Price.ofTick tick))
      (script s j).Quiet fun m price => m = .checking price := by
  simp only [Phase.next]
  rw [guides_bind]
  cases Price.averageTick cumulatives Price.window with
  | ok tick => exact guides_pure.mpr rfl
  | error e => exact guides_fail.mpr quiet_ended

/-- The price comes of one observation. -/
theorem price_guides :
    (script s j).Guides .observing (j.price s) (script s j).Quiet fun m price => m = .checking price := by
  unfold Job.price
  cases hp : s.twapPool with
  | none => exact quiet_observing hp
  | some pool =>
    dsimp only
    rw [guides_bind, guides_noting]
    refine ⟨by simp [script, Phase.request?, hp], ?_⟩
    rintro (e | cumulatives)
    · exact quiet_ended
    · exact ofTick_guides pool [Price.window, 0] j.block cumulatives

/-- A flag that cannot be read ends the execution. -/
theorem hasSubmitted_guides {m : Phase} {value : Option Word} {post : Phase → Bool → Prop}
    (hq : (script s j).asks m
      (.flag (Submission.key .prices s.node (RewardsTree.word j.block) value) none))
    (hok : ∀ submitted, post ((script s j).next m
      (.flag (Submission.key .prices s.node (RewardsTree.word j.block) value) none) (.ok submitted)) submitted)
    (hfail : ∀ e, (script s j).next m
      (.flag (Submission.key .prices s.node (RewardsTree.word j.block) value) none) (.error e) = .ended) :
    (script s j).Guides m (Ledger.hasSubmitted .prices s.node (RewardsTree.word j.block) value)
      (script s j).Quiet post := by
  refine ⟨hq, ?_⟩
  rintro (e | submitted)
  · change (script s j).Quiet _
    rw [hfail e]
    exact quiet_ended
  · exact hok submitted

/-- The submission is made once, and ends the execution whatever comes of it. -/
theorem submit_guides (price : Word) :
    (script s j).Guides (.submitting price)
      (do
        let hash ← (ask (Program.request (Request.submit
          (.submitPrices (RewardsTree.word j.block) price) (s.options 0)))).noting
          s!"Failed to submit prices for block {j.block}"
        Action.count .submissions name
        Action.log .prices .info "Submitted RPL price"
          [("block_number", .unsigned j.block), ("tx_hash", .shown (Digest.text hash))])
      (script s j).Quiet fun m _ => (script s j).Quiet m := by
  rw [guides_bind, guides_noting]
  refine ⟨rfl, ?_⟩
  rintro (e | hash)
  · exact quiet_ended
  · exact quiet_ended

/-- An execution asks in each phase the request of the phase, and ends where nothing is to be asked. -/
theorem execute_follows :
    (j.execute s).run.Follows (script s j) .observing fun m _ => (script s j).Quiet m := by
  have h : (script s j).Guides .observing (j.execute s) (script s j).Quiet
      fun m _ => (script s j).Quiet m := by
    dsimp only [Job.execute]
    rw [guides_bind]
    refine price_guides.mono (fun _ h => h) ?_
    rintro _ price rfl
    rw [guides_bind, guides_log, guides_bind]
    refine hasSubmitted_guides rfl ?_ fun _ => rfl
    rintro (_ | _)
    · simp only [Bool.false_eq_true, if_false]
      rw [guides_bind]
      -- another price that is recorded for the block is only reported
      refine hasSubmitted_guides rfl ?_ fun _ => rfl
      rintro (_ | _)
      · exact submit_guides price
      · exact submit_guides price
    · exact quiet_ended
  refine Program.Follows.mono h ?_
  intro m r hr
  cases r <;> exact hr

/-- Only the phase of the submission submits, and what it submits is the price that was checked. -/
theorem asks_submit {m : Phase} {call : Call} {options : TxOptions}
    (hq : (script s j).asks m (.submit call options)) : ∃ price, m = .submitting price ∧
      call = .submitPrices (RewardsTree.word j.block) price ∧ options = s.options 0 := by
  cases m with
  | submitting price =>
    cases hq
    exact ⟨price, rfl, rfl, rfl⟩
  | observing =>
    simp only [script, Phase.request?, Option.map_eq_some_iff] at hq
    obtain ⟨pool, _, hq⟩ := hq
    cases hq
  | _ => nomatch hq

/-! ### Launches -/

/-- A launch is guided by any script that lets it ask for the time of a block and for the head. -/
theorem launch_reads {S : Type} {k : Script Request Answer S} (s : Settings) (state : NetworkState) (m : S)
    (htime : ∀ m block, k.asks m (.blockTime block)) (hhead : ∀ m, k.asks m .head) :
    k.Guides m (launch s state) (fun _ => True) fun _ _ => True := by
  have hepoch : ∀ m time, k.Guides m (epochAt time state.timing) (fun _ => True) fun _ _ => True := by
    intro m time
    unfold epochAt
    split
    · trivial
    · trivial
  unfold launch
  dsimp only
  split
  · trivial
  split
  · trivial
  split
  · trivial
  rw [guides_bind, guides_noting]
  refine ⟨htime _ _, ?_⟩
  rintro (e | time)
  · trivial
  refine guides_bind.mpr ((hepoch _ time).mono (fun _ h => h) ?_)
  intro m epoch _
  rw [guides_bind, guides_noting]
  refine ⟨hhead _, ?_⟩
  rintro (e | head)
  · trivial
  change k.Guides _ (ite _ _ _) _ _
  split
  · trivial
  · trivial

end OracleDuty.Duty.SubmitPrices
