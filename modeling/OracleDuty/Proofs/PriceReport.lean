import OracleDuty.Duty.Round
import OracleDuty.Proofs.AverageTick
import OracleDuty.Proofs.Duty.SubmitPrices
import OracleDuty.Proofs.Invocation
/-!
Price reports from the call of the task to the submission: which checks a report passes in the foreground
and in the background, and how executions end that submit nothing.

Main statements: `asks_submit_iff` for the checks of the background, `execute_ends` for the ends of executions,
and `price_report`.
-/
namespace OracleDuty.Duty.SubmitPrices

section Course

variable {s : Settings} {state : NetworkState} {t : List (Exchange Request Answer)}

/-! ### The foreground -/

/-- An epoch can be told of any time once the lengths of the timing are positive. -/
theorem ends_epochAt_iff {time : UInt64} {timing : Chain.Timing} {epoch : UInt64} :
    (epochAt time timing).run.Ends t (.ok epoch) ↔
      timing.wellFormed = true ∧ t = [] ∧ epoch = timing.epochAt time := by
  unfold epochAt
  split
  next h =>
    rw [and_iff_right h]
    refine Program.ends_done.trans (and_congr_right fun _ => ?_)
    exact ⟨fun h => (Except.ok.inj h).symm, fun h => congrArg Except.ok h.symm⟩
  next h =>
    constructor
    · intro hends
      cases (Program.ends_done.mp hends).2
    · rintro ⟨hformed, -⟩
      exact absurd hformed h

/-- A report is due for a member, when prices are enabled and a later block may be reported that lies in a final
epoch. -/
theorem ends_launch_iff {s : Settings} {state : NetworkState} {j : Job} :
    (launch s state).run.Ends t (.ok (some j)) ↔
      state.prices.enabled = true ∧ state.isMember s.node = true ∧
      state.prices.pricesBlock < state.prices.latestReportableBlock ∧
      state.timing.wellFormed = true ∧ j = ⟨state.prices.latestReportableBlock⟩ ∧
      ∃ time head, t = [⟨.blockTime state.prices.latestReportableBlock, .ok time⟩, ⟨.head, .ok head⟩] ∧
        state.timing.epochAt time ≤ head.finalizedEpoch := by
  have hnone : ∀ t, ¬(pure none : Action (Option Job)).run.Ends t (.ok (some j)) := by
    intro t h
    cases (Program.ends_done.mp h).2
  unfold launch
  dsimp only
  -- each gate that is closed ends the launch without a job
  split
  next h =>
    rw [ends_log_bind]
    refine iff_of_false (hnone t) ?_
    simp_all
  next henabled =>
  split
  next h =>
    rw [ends_log_bind]
    refine iff_of_false (hnone t) ?_
    simp_all
  next hmember =>
  split
  next h =>
    rw [ends_log_bind]
    refine iff_of_false (hnone t) ?_
    rintro ⟨-, -, hlt, -⟩
    exact UInt64.not_lt.mpr h hlt
  next hlater =>
  constructor
  · intro h
    obtain ⟨time, u, v, rfl, htime, hepoch⟩ := ends_run_bind.mp h
    obtain rfl := ends_request.mp (ends_noting.mp htime)
    obtain ⟨epoch, u, v, rfl, hepoch, hhead⟩ := ends_run_bind.mp hepoch
    obtain ⟨hformed, rfl, rfl⟩ := ends_epochAt_iff.mp hepoch
    obtain ⟨head, u, v, rfl, hhead, hlast⟩ := ends_run_bind.mp hhead
    obtain rfl := ends_request.mp (ends_noting.mp hhead)
    split at hlast
    next => exact absurd (ends_log_bind.mp hlast) (hnone _)
    next hfinal =>
      obtain ⟨rfl, hj⟩ := Program.ends_done.mp hlast
      cases hj
      refine ⟨by simpa using henabled, by simpa using hmember, UInt64.not_le.mp hlater, hformed, rfl, ?_⟩
      exact ⟨time, head, rfl, UInt64.not_lt.mp hfinal⟩
  · rintro ⟨-, -, -, hformed, rfl, time, head, rfl, hfinal⟩
    refine ends_run_bind.mpr ⟨time, _, [_], rfl, ends_noting.mpr (ends_request.mpr rfl), ?_⟩
    refine ends_run_bind.mpr ⟨_, [], _, rfl, ends_epochAt_iff.mpr ⟨hformed, rfl, rfl⟩, ?_⟩
    refine ends_run_bind.mpr ⟨head, _, [], rfl, ends_noting.mpr (ends_request.mpr rfl), ?_⟩
    rw [if_neg (UInt64.not_lt.mpr hfinal)]
    exact .refl _

/-- Nothing is submitted before the work is started. -/
theorem not_asks_submit (call : Call) (options : TxOptions) :
    ¬(SubmitPrices.run s state).run.Asks t (.submit call options) := by
  have hlaunch : unpaid.Guides () (launch s state) (fun _ => True) fun _ _ => True :=
    launch_reads s state () (fun _ _ => nofun) fun _ => nofun
  have hrun : unpaid.Guides () (SubmitPrices.run s state) (fun _ => True) fun _ _ => True :=
    guides_bind.mpr (hlaunch.mono (fun _ h => h) fun _ _ _ => trivial)
  exact not_asks_of_unpaid hrun call options

theorem ends_run_iff {b : Background Request Answer} :
    (SubmitPrices.run s state).run.Ends t (.ok (some b)) ↔
      ∃ j : Job, b = ⟨name, j.execute s⟩ ∧ (launch s state).run.Ends t (.ok (some j)) :=
  ends_run_option

/-! ### The background -/

/-- The average is the floor of the quotient, for which 64 bits are enough. -/
theorem averageTick_eq_ok_iff {cumulatives : List Int64} {tick : Int64} :
    Price.averageTick cumulatives Price.window = .ok tick ↔
      ∃ c₀ c₁, cumulatives = [c₀, c₁] ∧ tick.toInt = (c₁.toInt - c₀.toInt) / 43200 := by
  constructor
  · intro h
    by_cases hlength : cumulatives.length = 2
    · obtain ⟨c₀, c₁, rfl⟩ := List.length_eq_two.mp hlength
      obtain ⟨average, haverage, hquotient⟩ := Price.exists_averageTick Price.one_lt_window c₀ c₁
      obtain rfl := Except.ok.inj (haverage.symm.trans h)
      exact ⟨c₀, c₁, rfl, hquotient⟩
    · cases (Price.averageTick_of_length_ne hlength).symm.trans h
  · rintro ⟨c₀, c₁, rfl, htick⟩
    obtain ⟨average, haverage, hquotient⟩ := Price.exists_averageTick Price.one_lt_window c₀ c₁
    rw [haverage, Int64.toInt_inj.mp (hquotient.trans htick.symm)]

variable {j : Job} {back : List (Exchange Request Answer)}

theorem script_asks_unique (m : Phase) (q q' : Request) (h : (script s j).asks m q)
    (h' : (script s j).asks m q') : q = q' :=
  Option.some.inj (h.symm.trans h')

inductive Observed (s : Settings) (block : UInt64) : Exchange Request Answer → Word → Prop where
  | intro {pool : Address} {c₀ c₁ tick : Int64} (hpool : s.twapPool = some pool)
    (htick : tick.toInt = (c₁.toInt - c₀.toInt) / 43200) :
    Observed s block ⟨.observe pool [43200, 0] block, .ok [c₀, c₁]⟩ (Price.ofTick tick)

def flagRead (s : Settings) (block : UInt64) (value : Option Word) (submitted : Bool) :
    Exchange Request Answer :=
  ⟨.flag (Submission.key .prices s.node (RewardsTree.word block) value) none, .ok submitted⟩

theorem not_admits_ended {q : Request} : ¬(script s j).Admits .ended back q := by
  intro h
  cases back with
  | nil => exact quiet_ended q h
  | cons e back => exact quiet_ended e.request h.1

theorem next_of_average {pool : Address} {seconds : List UInt32} {block : UInt64}
    {cumulatives : List Int64} {tick : Int64}
    (h : Price.averageTick cumulatives Price.window = .ok tick) :
    (script s j).next .observing (.observe pool seconds block) (.ok cumulatives) =
      .checking (Price.ofTick tick) := by
  simp only [script, Phase.next, h]

theorem next_of_no_average {pool : Address} {seconds : List UInt32} {block : UInt64}
    {cumulatives : List Int64} {e : Price.Error}
    (h : Price.averageTick cumulatives Price.window = .error e) :
    (script s j).next .observing (.observe pool seconds block) (.ok cumulatives) = .ended := by
  simp only [script, Phase.next, h]

/-- The observation comes before all else. -/
theorem admits_observing_iff {call : Call} {options : TxOptions} :
    (script s j).Admits .observing back (.submit call options) ↔ ∃ e price rest, back = e :: rest ∧
      Observed s j.block e price ∧ (script s j).Admits (.checking price) rest (.submit call options) := by
  constructor
  · intro h
    cases back with
    | nil =>
      obtain ⟨price, hprice, -⟩ := asks_submit h
      exact absurd hprice nofun
    | cons e rest =>
      obtain ⟨hasks, hrest⟩ := h
      obtain ⟨pool, hpool, hq⟩ := Option.map_eq_some_iff.mp hasks
      obtain ⟨q, a⟩ := e
      obtain rfl : _ = q := hq
      cases a with
      | error e => exact absurd hrest not_admits_ended
      | ok cumulatives =>
        cases htick : Price.averageTick cumulatives Price.window with
        | error e =>
          rw [next_of_no_average htick] at hrest
          exact absurd hrest not_admits_ended
        | ok tick =>
          rw [next_of_average htick] at hrest
          obtain ⟨c₀, c₁, rfl, hquotient⟩ := averageTick_eq_ok_iff.mp htick
          exact ⟨_, _, rest, rfl, .intro hpool hquotient, hrest⟩
  · rintro ⟨_, _, rest, rfl, @⟨pool, c₀, c₁, tick, hpool, hquotient⟩, hrest⟩
    refine ⟨Option.map_eq_some_iff.mpr ⟨pool, hpool, rfl⟩, ?_⟩
    rw [next_of_average (averageTick_eq_ok_iff.mpr ⟨c₀, c₁, rfl, hquotient⟩)]
    exact hrest

/-- Behind the observation the flag of the price is read, which must not be set. -/
theorem admits_checking_iff {price : Word} {call : Call} {options : TxOptions} :
    (script s j).Admits (.checking price) back (.submit call options) ↔ ∃ rest,
      back = flagRead s j.block (some price) false :: rest ∧
      (script s j).Admits (.checkingOthers price) rest (.submit call options) := by
  constructor
  · intro h
    cases back with
    | nil =>
      obtain ⟨price, hprice, -⟩ := asks_submit h
      exact absurd hprice nofun
    | cons e rest =>
      obtain ⟨hasks, hrest⟩ := h
      obtain ⟨q, a⟩ := e
      obtain rfl : _ = q := Option.some.inj hasks
      rcases a with e | submitted | submitted
      · exact absurd hrest not_admits_ended
      · exact ⟨rest, rfl, hrest⟩
      · exact absurd hrest not_admits_ended
  · rintro ⟨rest, rfl, hrest⟩
    exact ⟨rfl, hrest⟩

/-- A record of another price for the block is no hindrance. -/
theorem admits_checkingOthers_iff {price : Word} {call : Call} {options : TxOptions} :
    (script s j).Admits (.checkingOthers price) back (.submit call options) ↔ ∃ recorded rest,
      back = flagRead s j.block none recorded :: rest ∧
      (script s j).Admits (.submitting price) rest (.submit call options) := by
  constructor
  · intro h
    cases back with
    | nil =>
      obtain ⟨price, hprice, -⟩ := asks_submit h
      exact absurd hprice nofun
    | cons e rest =>
      obtain ⟨hasks, hrest⟩ := h
      obtain ⟨q, a⟩ := e
      obtain rfl : _ = q := Option.some.inj hasks
      rcases a with e | recorded
      · exact absurd hrest not_admits_ended
      · exact ⟨recorded, rest, rfl, hrest⟩
  · rintro ⟨recorded, rest, rfl, hrest⟩
    exact ⟨rfl, hrest⟩

/-- Nothing stands between the last flag and the submission. -/
theorem admits_submitting_iff {price : Word} {call : Call} {options : TxOptions} :
    (script s j).Admits (.submitting price) back (.submit call options) ↔
      back = [] ∧ call = .submitPrices (RewardsTree.word j.block) price ∧ options = s.options 0 := by
  constructor
  · intro h
    cases back with
    | nil =>
      obtain ⟨price', hprice, hcall, hoptions⟩ := asks_submit h
      cases hprice
      exact ⟨rfl, hcall, hoptions⟩
    | cons e rest =>
      obtain ⟨hasks, hrest⟩ := h
      obtain ⟨q, a⟩ := e
      obtain rfl : _ = q := Option.some.inj hasks
      rcases a with e | hash
      · exact absurd hrest not_admits_ended
      · exact absurd hrest not_admits_ended
  · rintro ⟨rfl, rfl, rfl⟩
    exact rfl

def Cleared (s : Settings) (block : UInt64) (back : List (Exchange Request Answer)) (price : Word) : Prop :=
  ∃ e recorded, Observed s block e price ∧
    back = [e, flagRead s block (some price) false, flagRead s block none recorded]

/-- An execution submits the observed price once its flag was read and is not set, whatever the flag of the
block says; and it submits nothing else. -/
theorem asks_submit_iff {call : Call} {options : TxOptions} :
    (j.execute s).run.Asks back (.submit call options) ↔ ∃ price, Cleared s j.block back price ∧
      call = .submitPrices (RewardsTree.word j.block) price ∧ options = s.options 0 := by
  rw [execute_follows.asks_iff script_asks_unique, admits_observing_iff]
  constructor
  · rintro ⟨e, price, _, rfl, he, hchecking⟩
    obtain ⟨_, rfl, hothers⟩ := admits_checking_iff.mp hchecking
    obtain ⟨recorded, _, rfl, hlast⟩ := admits_checkingOthers_iff.mp hothers
    obtain ⟨rfl, hcall, hoptions⟩ := admits_submitting_iff.mp hlast
    exact ⟨price, ⟨e, recorded, he, rfl⟩, hcall, hoptions⟩
  · rintro ⟨price, ⟨e, recorded, he, rfl⟩, hcall, hoptions⟩
    have hlast := admits_submitting_iff.mpr ⟨rfl, hcall, hoptions⟩
    have hothers := admits_checkingOthers_iff.mpr ⟨recorded, [], rfl, hlast⟩
    exact ⟨e, price, _, rfl, he, admits_checking_iff.mpr ⟨_, rfl, hothers⟩⟩

/-- The observed price is recorded already. -/
def Duplicate (s : Settings) (block : UInt64) (back : List (Exchange Request Answer)) : Prop :=
  ∃ e price, Observed s block e price ∧ back = [e, flagRead s block (some price) true]

def Reported (s : Settings) (block : UInt64) (back : List (Exchange Request Answer)) : Prop :=
  ∃ read price a, Cleared s block read price ∧
    back = read ++ [⟨.submit (.submitPrices (RewardsTree.word block) price) (s.options 0), a⟩]

theorem Observed.not_submission {block : UInt64} {e : Exchange Request Answer} {price : Word}
    (h : Observed s block e price) : e.request.submission? = none := by
  cases h
  rfl

theorem Cleared.submissions_eq {block : UInt64} {price : Word} (h : Cleared s block back price) :
    submissions back = [] := by
  obtain ⟨e, recorded, he, rfl⟩ := h
  rw [submissions_cons_of_none he.not_submission]
  rfl

/-- Something that is to be read was not, or it speaks against a submission; so none was made. -/
def Hindered (s : Settings) (block : UInt64) (back : List (Exchange Request Answer)) : Prop :=
  submissions back = [] ∧ ∀ read price, Cleared s block read price → ¬read <+: back

theorem hindered_of_length_lt {block : UInt64} (hlength : back.length < 3) (h : submissions back = []) :
    Hindered s block back := by
  refine ⟨h, ?_⟩
  rintro read price ⟨e, recorded, -, rfl⟩ hprefix
  have hle := hprefix.length_le
  simp only [List.length_cons, List.length_nil] at hle
  omega

theorem Duplicate.length_eq {block : UInt64} (h : Duplicate s block back) : back.length = 2 := by
  obtain ⟨e, price, -, rfl⟩ := h
  rfl

/-- The price is of the observation that was made, or the execution was hindered by it. -/
theorem price_observes : Script.history.Guides [] (j.price s)
    (fun m => Hindered s j.block m ∧ ¬Duplicate s j.block m)
    fun m price => ∃ e, m = [e] ∧ Observed s j.block e price := by
  have hbad : ∀ m : List (Exchange Request Answer), m.length < 2 → submissions m = [] →
      Hindered s j.block m ∧ ¬Duplicate s j.block m := by
    intro m hlength hm
    refine ⟨hindered_of_length_lt (Nat.lt_succ_of_lt hlength) hm, ?_⟩
    intro h
    exact absurd h.length_eq (Nat.ne_of_lt hlength)
  unfold Job.price
  cases hpool : s.twapPool with
  | none => exact hbad [] (by simp) rfl
  | some pool =>
    dsimp only
    rw [guides_bind, guides_noting]
    refine ⟨trivial, ?_⟩
    rintro (e | cumulatives)
    · exact hbad [_] (by simp) rfl
    refine guides_bind.mpr ?_
    refine guides_ofExcept ?_ (hbad [_] (by simp) rfl)
    intro tick htick
    obtain ⟨c₀, c₁, rfl, hquotient⟩ := averageTick_eq_ok_iff.mp htick
    exact ⟨_, rfl, .intro hpool hquotient⟩

/-- A flag that is asked for is read, or hinders the execution. -/
theorem hasSubmitted_reads {m : List (Exchange Request Answer)} {value : Option Word}
    {bad : List (Exchange Request Answer) → Prop} {post : List (Exchange Request Answer) → Bool → Prop}
    (hbad : ∀ report, bad (m ++ [⟨.flag (Submission.key .prices s.node (RewardsTree.word j.block) value)
      none, .error report⟩]))
    (hpost : ∀ submitted, post (m ++ [flagRead s j.block value submitted]) submitted) :
    Script.history.Guides m (Ledger.hasSubmitted .prices s.node (RewardsTree.word j.block) value)
      bad post := by
  refine ⟨trivial, ?_⟩
  rintro (report | submitted)
  · exact hbad report
  · exact hpost submitted

/-- A cleared price is reported, whether or not the submission is mined. -/
theorem submit_reports {price : Word} (h : Cleared s j.block back price) :
    Script.history.Guides back
      (do
        let hash ← (ask (Program.request (Request.submit
          (.submitPrices (RewardsTree.word j.block) price) (s.options 0)))).noting
          s!"Failed to submit prices for block {j.block}"
        Action.count .submissions name
        Action.log .prices .info "Submitted RPL price"
          [("block_number", .unsigned j.block), ("tx_hash", .shown (Digest.text hash))])
      (Reported s j.block) fun m _ => Reported s j.block m := by
  rw [guides_bind, guides_noting]
  refine ⟨trivial, ?_⟩
  rintro (report | hash)
  · exact ⟨back, price, _, h, rfl⟩
  · exact ⟨back, price, _, h, rfl⟩

/-- An execution that submits nothing has failed, unless the price is recorded already. -/
theorem execute_ends : Script.history.Guides [] (j.execute s)
    (fun m => Reported s j.block m ∨ Hindered s j.block m ∧ ¬Duplicate s j.block m)
    fun m _ => Reported s j.block m ∨ Hindered s j.block m ∧ Duplicate s j.block m := by
  dsimp only [Job.execute]
  rw [guides_bind]
  refine price_observes.mono (fun _ h => .inr h) ?_
  rintro _ price ⟨e, rfl, he⟩
  have hread : ∀ rest, submissions rest = [] → submissions (e :: rest) = [] := by
    intro rest hrest
    rw [submissions_cons_of_none he.not_submission, hrest]
  rw [guides_bind, guides_log, guides_bind]
  refine hasSubmitted_reads ?_ ?_
  · intro report
    refine .inr ⟨hindered_of_length_lt (by simp) (hread _ rfl), ?_⟩
    rintro ⟨e', price', -, h⟩
    simp [flagRead] at h
  -- the price is not recorded yet, or it is
  rintro (_ | _)
  · simp only [Bool.false_eq_true, if_false]
    rw [guides_bind]
    refine hasSubmitted_reads ?_ ?_
    · intro report
      refine .inr ⟨⟨hread _ rfl, ?_⟩, fun h => absurd h.length_eq (by simp)⟩
      rintro read price' ⟨e', recorded, -, rfl⟩ hprefix
      have heq := hprefix.eq_of_length (by simp)
      simp [flagRead] at heq
    -- the flag of the block is read, and the price is submitted all the same
    · intro recorded
      have hcleared : Cleared s j.block ([e] ++ [flagRead s j.block (some price) false] ++
          [flagRead s j.block none recorded]) price := ⟨e, recorded, he, rfl⟩
      cases recorded with
      | false => exact (submit_reports hcleared).mono (fun _ h => .inl h) fun _ _ h => .inl h
      | true => exact (submit_reports hcleared).mono (fun _ h => .inl h) fun _ _ h => .inl h
  · refine .inr ⟨hindered_of_length_lt (by simp) (hread _ rfl), e, price, he, rfl⟩

/-! ### The whole report -/

/-- The task as the controller knows it. -/
def task (s : Settings) : Task Request Answer := ⟨name, SubmitPrices.run s⟩

example (s : Settings) : (tasks s)[1]? = some (task s) := rfl

/-- Run for a state with its requests answered as in `t`, the task starts work with some lanes taken; and
with its requests answered as in `back`, the work submits a call. -/
def Submits (s : Settings) (state : NetworkState) (lanes : Lanes) (t back : List (Exchange Request Answer))
    (call : Call) (options : TxOptions) : Prop :=
  ∃ i : Invocation Request Answer, i.task = task s ∧ i.state = state ∧ i.lanes = lanes ∧
    i.exchanges = t ∧ i.Sound ∧ ∃ b, i.started? = some b ∧ b.work.run.Asks back (.submit call options)

/-- All that must hold for a price to be submitted. -/
structure Due (s : Settings) (state : NetworkState) (lanes : Lanes) (t back : List (Exchange Request Answer))
    (price : Word) : Prop where
  enabled : state.prices.enabled = true
  member : ∃ m ∈ state.members, m.address = s.node
  later : state.prices.pricesBlock < state.prices.latestReportableBlock
  timed : state.timing.secondsPerSlot ≠ 0 ∧ state.timing.slotsPerEpoch ≠ 0
  finalized : ∃ time head,
    t = [⟨.blockTime state.prices.latestReportableBlock, .ok time⟩, ⟨.head, .ok head⟩] ∧
    (time.toNat - state.timing.genesisTime.toNat) / state.timing.secondsPerSlot.toNat /
      state.timing.slotsPerEpoch.toNat ≤ head.finalizedEpoch.toNat
  free : lanes.isTaken name = false
  cleared : Cleared s state.prices.latestReportableBlock back price

/-- The epoch in unbounded numbers, times before genesis being in the first one. -/
theorem toNat_epochAt (timing : Chain.Timing) (time : UInt64) : (timing.epochAt time).toNat =
    (time.toNat - timing.genesisTime.toNat) / timing.secondsPerSlot.toNat / timing.slotsPerEpoch.toNat := by
  unfold Chain.Timing.epochAt
  dsimp only
  rw [UInt64.toNat_div, UInt64.toNat_div]
  split
  next h =>
    have hbefore := UInt64.lt_iff_toNat_lt.mp h
    rw [Nat.sub_eq_zero_of_le (Nat.le_of_lt hbefore)]
    rfl
  next h => rw [UInt64.toNat_sub_of_le _ _ (UInt64.not_lt.mp h)]

/-- The foreground passes a job on exactly if its own checks are passed. -/
theorem Due.iff_launch {lanes : Lanes} {price : Word} :
    Due s state lanes t back price ↔ ∃ j, (launch s state).run.Ends t (.ok (some j)) ∧
      lanes.isTaken name = false ∧ Cleared s j.block back price := by
  have hmember : state.isMember s.node = true ↔ ∃ m ∈ state.members, m.address = s.node := by
    simp [NetworkState.isMember]
  have htimed : state.timing.wellFormed = true ↔
      state.timing.secondsPerSlot ≠ 0 ∧ state.timing.slotsPerEpoch ≠ 0 := by
    simp [Chain.Timing.wellFormed]
  constructor
  · rintro ⟨henabled, hm, hlater, ht, ⟨time, head, rfl, hfinal⟩, hfree, hcleared⟩
    rw [← toNat_epochAt] at hfinal
    refine ⟨⟨_⟩, ends_launch_iff.mpr ?_, hfree, hcleared⟩
    exact ⟨henabled, hmember.mpr hm, hlater, htimed.mpr ht, rfl, time, head, rfl,
      UInt64.le_iff_toNat_le.mpr hfinal⟩
  · rintro ⟨j, hlaunch, hfree, hcleared⟩
    obtain ⟨henabled, hm, hlater, ht, rfl, time, head, rfl, hfinal⟩ := ends_launch_iff.mp hlaunch
    refine ⟨henabled, hmember.mp hm, hlater, htimed.mp ht, ⟨time, head, rfl, ?_⟩, hfree, hcleared⟩
    rw [← toNat_epochAt]
    exact UInt64.le_iff_toNat_le.mp hfinal

/-- What an invocation of the task starts is the execution of the job that its foreground passes on. -/
theorem started?_iff {i : Invocation Request Answer} (htask : i.task = task s) (hstate : i.state = state)
    (hsound : i.Sound) {b : Background Request Answer} :
    i.started? = some b → ∃ j, b = ⟨name, j.execute s⟩ ∧
      (launch s state).run.Ends i.exchanges (.ok (some j)) ∧ i.lanes.isTaken name = false := by
  intro hb
  obtain ⟨hresult, hfree⟩ := i.started?_eq_some_iff.mp hb
  have hends : (SubmitPrices.run s state).run.Ends i.exchanges (.ok (some b)) := by
    have hrun := hsound.ends
    rw [htask, hstate, hresult] at hrun
    exact hrun
  obtain ⟨j, rfl, hlaunch⟩ := ends_run_iff.mp hends
  exact ⟨j, rfl, hlaunch, hfree⟩

/-- A submission is made exactly when it is due. -/
theorem submits_iff {lanes : Lanes} {call : Call} {options : TxOptions} :
    Submits s state lanes t back call options ↔ ∃ price, Due s state lanes t back price ∧
      call = .submitPrices (RewardsTree.word state.prices.latestReportableBlock) price ∧
      options = s.options 0 := by
  constructor
  · rintro ⟨i, htask, hstate, rfl, rfl, hsound, b, hb, hasks⟩
    obtain ⟨j, rfl, hlaunch, hfree⟩ := started?_iff htask hstate hsound hb
    obtain ⟨price, hcleared, hcall, hoptions⟩ := asks_submit_iff.mp hasks
    obtain ⟨-, -, -, -, rfl, -⟩ := ends_launch_iff.mp hlaunch
    exact ⟨price, Due.iff_launch.mpr ⟨_, hlaunch, hfree, hcleared⟩, hcall, hoptions⟩
  · rintro ⟨price, hdue, hcall, hoptions⟩
    obtain ⟨j, hlaunch, hfree, hcleared⟩ := Due.iff_launch.mp hdue
    obtain ⟨-, -, -, -, rfl, -⟩ := ends_launch_iff.mp hlaunch
    obtain ⟨lines, hlines⟩ := (ends_run_iff.mpr ⟨_, rfl, hlaunch⟩).concludes
    have hasks := asks_submit_iff.mpr ⟨price, hcleared, hcall, hoptions⟩
    refine ⟨⟨task s, state, t, lines, _, lanes⟩, rfl, rfl, rfl, rfl, hlines,
      ⟨name, Job.execute s _⟩, ?_, hasks⟩
    exact (Invocation.started?_eq_some_iff _).mpr ⟨rfl, hfree⟩

theorem Reported.submissions_eq {block : UInt64} (h : Reported s block back) : ∃ read price,
    Cleared s block read price ∧ read <+: back ∧
      submissions back = [(.submitPrices (RewardsTree.word block) price, s.options 0)] := by
  obtain ⟨read, price, a, hcleared, rfl⟩ := h
  refine ⟨read, price, hcleared, List.prefix_append _ _, ?_⟩
  rw [submissions_append, hcleared.submissions_eq, submissions_submit]
  rfl

theorem count_backgroundFailures_eq_one_iff (lane : String) (result : Except Report Unit) :
    (Lane.endEntries lane (.completed result)).count (.count .backgroundFailures lane) = 1 ↔
      result ≠ .ok () := by
  cases result with
  | ok _ => simp [Lane.endEntries, Lane.finishEntries, Outcome.failure?]
  | error _ => simp [Lane.endEntries, Lane.finishEntries, Lane.failureEntries, Outcome.failure?]

/-- A price is submitted exactly if all checks are passed, whatever the flag of the block says: the price
that was observed, with the number of the latest reportable block, once. An execution that ends without that
has failed, and is counted as such, unless the price is recorded already. -/
theorem price_report (s : Settings) (state : NetworkState) (lanes : Lanes) :
    (RewardsTree.word state.prices.latestReportableBlock).toNat = state.prices.latestReportableBlock.toNat ∧
    (∀ t call options, ¬(SubmitPrices.run s state).run.Asks t (.submit call options)) ∧
    (∀ t back call options, Submits s state lanes t back call options ↔ ∃ price,
      Due s state lanes t back price ∧
      call = .submitPrices (RewardsTree.word state.prices.latestReportableBlock) price ∧
      options = ⟨0, none, s.fees.maxFeePerGas, s.fees.maxPriorityFeePerGas⟩) ∧
    ∀ i : Invocation Request Answer, i.task = task s → i.state = state → i.lanes = lanes → i.Sound →
      ∀ b back result, i.started? = some b → b.work.run.Ends back result →
        (∃ read price, Due s state lanes i.exchanges read price ∧ read <+: back ∧
          submissions back = [(.submitPrices (RewardsTree.word state.prices.latestReportableBlock) price,
            ⟨0, none, s.fees.maxFeePerGas, s.fees.maxPriorityFeePerGas⟩)]) ∨
        ((∀ read price, read <+: back → ¬Due s state lanes i.exchanges read price) ∧
          submissions back = [] ∧
          ((Lane.endEntries b.lane (.completed result)).count (.count .backgroundFailures b.lane) = 1 ↔
            ¬Duplicate s state.prices.latestReportableBlock back)) := by
  refine ⟨RewardsTree.toNat_word _, fun t call options => not_asks_submit call options,
    fun t back call options => submits_iff, ?_⟩
  rintro i htask hstate rfl hsound b back result hb hends
  obtain ⟨j, rfl, hlaunch, hfree⟩ := started?_iff htask hstate hsound hb
  obtain ⟨-, -, -, -, rfl, -⟩ := ends_launch_iff.mp hlaunch
  have hreported : ∀ {back}, Reported s state.prices.latestReportableBlock back → ∃ read price,
      Due s state i.lanes i.exchanges read price ∧ read <+: back ∧ submissions back =
        [(.submitPrices (RewardsTree.word state.prices.latestReportableBlock) price, s.options 0)] := by
    intro back h
    obtain ⟨read, price, hcleared, hprefix, hsubmissions⟩ := h.submissions_eq
    exact ⟨read, price, Due.iff_launch.mpr ⟨_, hlaunch, hfree, hcleared⟩, hprefix, hsubmissions⟩
  have hhindered : ∀ {back}, Hindered s state.prices.latestReportableBlock back → ∀ read price,
      read <+: back → ¬Due s state i.lanes i.exchanges read price := by
    intro back h read price hprefix hdue
    exact h.2 read price hdue.cleared hprefix
  -- the work has reported the price or was hindered, and how it ended goes with which of them it was
  have hclass := Program.Follows.ends execute_ends hends
  rw [count_backgroundFailures_eq_one_iff]
  rcases result with report | ⟨⟩
  · obtain h | ⟨h, hfresh⟩ := hclass
    · exact .inl (hreported h)
    · exact .inr ⟨hhindered h, h.1, iff_of_true nofun hfresh⟩
  · obtain h | ⟨h, hduplicate⟩ := hclass
    · exact .inl (hreported h)
    · exact .inr ⟨hhindered h, h.1, iff_of_false (fun h => h rfl) (fun h => h hduplicate)⟩

end Course

namespace Sample

def settings : Settings where
  node := 7
  store := ⟨"", "mainnet"⟩
  treeMode := .download
  fees := ⟨some 50, none⟩
  twapPool := some 9
  messengers := []
  maxWalkback := none

def state : NetworkState where
  block := 230
  slot := 170
  timing := ⟨1000, 12, 32⟩
  interval := ⟨5, 1100, 1000⟩
  prices := ⟨true, 100, 200⟩
  members := [⟨4, 0⟩, ⟨7, 0⟩]

def asked : List (Exchange Request Answer) := [⟨.blockTime 200, .ok 2211⟩, ⟨.head, .ok ⟨170, 5, 3⟩⟩]

/-- The average of the cumulatives is a little below zero. Another price is recorded for the block. -/
def observed : List (Exchange Request Answer) := [
  ⟨.observe 9 [43200, 0] 200, .ok [1, 0]⟩,
  flagRead settings 200 (some (Price.ofTick (-1))) false,
  flagRead settings 200 none true]

theorem due : Due settings state .empty asked observed (Price.ofTick (-1)) where
  enabled := rfl
  member := ⟨⟨7, 0⟩, by simp [state], rfl⟩
  later := by decide
  timed := by decide
  finalized := ⟨2211, ⟨170, 5, 3⟩, rfl, by decide⟩
  free := rfl
  cleared := ⟨_, true, Observed.intro rfl (show (-1 : Int64).toInt = _ by decide), rfl⟩

def unobserved : List (Exchange Request Answer) :=
  [⟨.observe 9 [43200, 0] 200, .error (.of (.plain "timeout"))⟩]

theorem execute_unobserved : ∃ report,
    (Job.execute settings ⟨200⟩).run.Ends unobserved (.error report) :=
  ⟨_, .ask (.refl _)⟩

end Sample

theorem price_report_sample :
    Submits Sample.settings Sample.state .empty Sample.asked Sample.observed
      (.submitPrices (RewardsTree.word 200) (Price.ofTick (-1))) ⟨0, none, some 50, none⟩ ∧
    (∀ call options, ¬Submits Sample.settings { Sample.state with members := [⟨4, 0⟩] } .empty
      Sample.asked Sample.observed call options) ∧
    ∃ (i : Invocation Request Answer) (b : Background Request Answer) (result : Except Report Unit),
      i.task = task Sample.settings ∧ i.Sound ∧ i.started? = some b ∧
      b.work.run.Ends Sample.unobserved result ∧
      (Lane.endEntries b.lane (.completed result)).count (.count .backgroundFailures b.lane) = 1 := by
  obtain ⟨-, -, hsubmits, hends⟩ := price_report Sample.settings Sample.state .empty
  have hsubmitted : Submits Sample.settings Sample.state .empty Sample.asked Sample.observed
      (.submitPrices (RewardsTree.word 200) (Price.ofTick (-1))) ⟨0, none, some 50, none⟩ :=
    (hsubmits _ _ _ _).mpr ⟨_, Sample.due, rfl, rfl⟩
  refine ⟨hsubmitted, ?_, ?_⟩
  · intro call options h
    obtain ⟨price, hdue, -⟩ := ((price_report _ _ _).2.2.1 _ _ _ _).mp h
    obtain ⟨m, hm, hnode⟩ := hdue.member
    obtain rfl := List.mem_singleton.mp hm
    exact absurd hnode (by decide)
  · obtain ⟨i, htask, hstate, hlanes, -, hsound, b, hb, -⟩ := hsubmitted
    obtain ⟨j, rfl, hlaunch, -⟩ := started?_iff htask hstate hsound hb
    obtain ⟨-, -, -, -, rfl, -⟩ := ends_launch_iff.mp hlaunch
    obtain ⟨report, hreport⟩ := Sample.execute_unobserved
    refine ⟨i, _, _, htask, hsound, hb, hreport, ?_⟩
    obtain ⟨_, _, -, -, hsubmission⟩ | ⟨-, -, hcount⟩ :=
      hends i htask hstate hlanes hsound _ _ _ hb hreport
    · exact absurd hsubmission nofun
    · exact hcount.mpr fun hduplicate => absurd hduplicate.length_eq (by decide)

end OracleDuty.Duty.SubmitPrices
