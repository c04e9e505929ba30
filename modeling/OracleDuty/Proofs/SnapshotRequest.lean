import OracleDuty.Proofs.Duty.SubmitRewards
import OracleDuty.Proofs.Interval
import OracleDuty.Proofs.Snapshot
/-!
What the generator of rewards trees is asked: the request for an interval is settled by the interval, by the
chain and by the number of elapsed intervals, and by nothing that differs from node to node.
-/
namespace OracleDuty

open Duty Duty.SubmitRewards

def walkback (s : Settings) (state : NetworkState) : Nat :=
  (s.maxWalkback.getD state.timing.slotsPerEpoch).toNat

/-- A request of the generator, by the answers that the round was given: it covers the intervals that have
elapsed at the head of the chain, up to the last boundary before it, and is taken at the first epoch whose
last slot is not before that boundary, once the next epoch is final. All numbers are unbounded. -/
structure SnapshotRequest (s : Settings) (state : NetworkState) (t : List (Exchange Request Answer))
    (r : Generation.Request) : Prop where
  network : r.network = s.store.network
  index : r.index = state.interval.index
  startTime : r.startTime = state.interval.startTime
  closed : 1 ≤ r.intervalsPassed.toNat
  elapsed : r.intervalsPassed.toNat =
    ((state.timing.slotTime state.slot).toNat - state.interval.startTime.toNat) /
      state.interval.duration.toNat
  endTime : r.endTime.toNat =
    state.interval.startTime.toNat + r.intervalsPassed.toNat * state.interval.duration.toNat
  passed : r.endTime.toNat ≤ (state.timing.slotTime state.slot).toNat
  current : (state.timing.slotTime state.slot).toNat <
    r.endTime.toNat + state.interval.duration.toNat
  snapshot : ∃ epoch head rest slot block,
    (∀ n, r.endTime.toNat ≤ state.timing.genesisTime.toNat +
      state.timing.secondsPerSlot.toNat * ((n + 1) * state.timing.slotsPerEpoch.toNat - 1) ↔
        epoch ≤ n) ∧
    t = ⟨.head, .ok head⟩ :: rest ∧ epoch + 1 ≤ head.finalizedEpoch.toNat ∧
    Snapshot.FoundAt t ((epoch + 1) * state.timing.slotsPerEpoch.toNat - 1) (walkback s state) slot block ∧
    r.consensusBlock = block.slot ∧ r.executionBlock = block.executionBlock

namespace SnapshotRequest

variable {s : Settings} {state : NetworkState}

/-- Each job that is launched has its request by the answers that the round was given. -/
theorem launch_guides (s : Settings) (state : NetworkState) :
    Script.history.Guides [] (launch s state) (fun _ => True) fun t job => ∀ j, job = some j →
      SnapshotRequest s state t (j.request s) := by
  unfold launch
  dsimp only
  split
  · exact nofun
  refine guides_bind.mpr (guides_ofExcept (fun elapsed helapsed => ?_) trivial)
  split
  · exact nofun
  next hpassed =>
  refine guides_bind.mpr (guides_ofExcept (fun endTime hend => ?_) trivial)
  -- an interval has closed: the head is asked for, and the snapshot settled
  rw [guides_bind, guides_log, guides_bind, guides_noting]
  refine ⟨trivial, ?_⟩
  rintro (e | head)
  · trivial
  refine guides_bind.mpr ((Snapshot.resolve_guides _ _ _ _ _).mono (fun _ h => h) ?_)
  rintro t (target | plan) ⟨⟨rest, hrest⟩, htarget⟩
  · obtain ⟨p, n, block, hplan, hfinal, hfound, rfl⟩ := htarget target rfl
    rintro j ⟨⟩
    obtain ⟨-, hcount⟩ := Interval.elapsed_eq_ok_iff.mp helapsed
    have hlast := Interval.endsLast_of_ok helapsed hend
    obtain ⟨hslot, hrequired, hepoch⟩ := Snapshot.plan_ok hplan
    constructor
    case network => rfl
    case index => rfl
    case startTime => rfl
    case closed =>
      apply Nat.pos_of_ne_zero
      intro h0
      exact hpassed (UInt64.toNat_inj.mp h0)
    case elapsed => exact hcount
    case endTime => exact hlast.eq_add
    case passed => exact hlast.le
    case current => exact hlast.lt
    case snapshot =>
      refine ⟨p.targetEpoch.toNat, head, rest, n, block, hepoch, hrest.symm, ?_, ?_, rfl, rfl⟩
      · rw [← hrequired]
        exact hfinal
      · rw [← hslot]
        have hlow : p.targetSlot.toNat ≤ n + walkback s state := by
          have hmin := hfound.low
          rw [walkback]
          omega
        exact ⟨hlow, hfound.high, hfound.found, hfound.empty⟩
  · exact nofun

/-- The work that a round calls for is such a job. -/
theorem run_guides (s : Settings) (state : NetworkState) :
    Script.history.Guides [] (run s state) (fun _ => True) fun t b => ∀ x, b = some x →
      ∃ j : Job, x = ⟨SubmitRewards.name, j.execute s⟩ ∧ SnapshotRequest s state t (j.request s) := by
  refine guides_bind.mpr ((launch_guides s state).mono (fun _ h => h) ?_)
  intro t job hjob
  refine guides_pure.mpr ?_
  intro x hx
  obtain ⟨j, hj, rfl⟩ := Option.map_eq_some_iff.mp hx
  exact ⟨j, rfl, hjob j hj⟩

theorem request_of_asks {j : Job} {t : List (Exchange Request Answer)} {r : Generation.Request}
    (h : (j.execute s).run.Asks t (.generate r)) : r = j.request s := by
  have hq := execute_follows.asks h
  generalize (script s j).after .reading t = m at hq
  cases m with
  | generating => cases hq; rfl
  | _ => nomatch hq

/-- What an execution asks the generator can be told from it. -/
theorem request_of_execute {j j' : Job} (h : j.execute s = j'.execute s) : j.request s = j'.request s := by
  -- it asks once the store has no tree
  have hasks : (j.execute s).run.Asks
      [⟨.disk (.read (s.store.treePath j.interval.index)), .error .notFound⟩] (.generate (j.request s)) :=
    (asks_iff_admits _ _ _).mpr ⟨rfl, rfl⟩
  rw [h] at hasks
  exact request_of_asks hasks

variable {s' : Settings} {state' : NetworkState} {t u : List (Exchange Request Answer)}
  {r r' : Generation.Request}

/-- Of two walks over the same slots neither stops short of the block that the other one found. -/
theorem slot_le {last depth depth' n n' : Nat} {block block' : Chain.Block}
    (h : Snapshot.FoundAt t last depth n block) (h' : Snapshot.FoundAt u last depth' n' block')
    (halike : ∀ slot a b, ⟨.block slot, a⟩ ∈ t → ⟨.block slot, b⟩ ∈ u → a = b) : n' ≤ n := by
  apply Nat.le_of_not_lt
  intro hlt
  -- the slot above was answered empty in one round, and holds a block in the other
  have hnone := h.empty n' hlt h'.high
  have halike' := halike _ _ _ hnone h'.found
  cases halike'

/-- The request is settled by the chain alone, so that all nodes ask the generator alike. -/
theorem agrees (h : SnapshotRequest s state t r) (h' : SnapshotRequest s' state' u r')
    (hinterval : state'.interval = state.interval) (htiming : state'.timing = state.timing)
    (hnetwork : s'.store.network = s.store.network)
    (halike : ∀ slot a b, ⟨.block slot, a⟩ ∈ t → ⟨.block slot, b⟩ ∈ u → a = b)
    (hpassed : r'.intervalsPassed = r.intervalsPassed) : r' = r := by
  have hend : r'.endTime = r.endTime := by
    apply UInt64.toNat_inj.mp
    rw [h.endTime, h'.endTime, hinterval, hpassed]
  obtain ⟨epoch, head, rest, n, block, hepoch, _, _, hfound, hc, he⟩ := h.snapshot
  obtain ⟨epoch', head', rest', n', block', hepoch', _, _, hfound', hc', he'⟩ := h'.snapshot
  rw [htiming, hend] at hepoch'
  -- each epoch is the least that is late enough, and each slot the highest that holds a block
  have hsame : epoch' = epoch := by
    apply Nat.le_antisymm
    · exact (hepoch' epoch).mp ((hepoch epoch).mpr (Nat.le_refl _))
    · exact (hepoch epoch').mp ((hepoch' epoch').mpr (Nat.le_refl _))
  subst hsame
  rw [htiming] at hfound'
  have hn : n' = n := by
    apply Nat.le_antisymm
    · exact slot_le hfound hfound' halike
    · apply slot_le hfound' hfound
      intro slot a b ha hb
      exact (halike slot b a hb ha).symm
  subst hn
  have hblock := halike _ _ _ hfound.found hfound'.found
  cases hblock
  calc r' = ⟨r'.network, r'.index, r'.intervalsPassed, r'.startTime, r'.endTime, r'.consensusBlock,
        r'.executionBlock⟩ := rfl
    _ = ⟨r.network, r.index, r.intervalsPassed, r.startTime, r.endTime, r.consensusBlock,
        r.executionBlock⟩ := by
      rw [h'.network, hnetwork, ← h.network, h'.index, hinterval, ← h.index, hpassed, h'.startTime,
        hinterval, ← h.startTime, hend, hc', ← hc, he', ← he]
    _ = r := rfl

/-- A tree is called for once its interval has closed and the snapshot is settled, by a member or by a node
that generates trees. -/
theorem ends_launch_of_due {s : Settings} {state : NetworkState} {elapsed endTime : UInt64}
    {p : Snapshot.Plan} {head : Chain.Head}
    (hconcerned : state.isMember s.node = true ∨ s.treeMode = .generate)
    (helapsed : Interval.elapsed (state.timing.slotTime state.slot) state.interval.startTime
      state.interval.duration = .ok elapsed) (hclosed : elapsed ≠ 0)
    (hend : Interval.lastBoundary (state.timing.slotTime state.slot) state.interval.startTime
      state.interval.duration = .ok endTime)
    (hplan : Snapshot.plan endTime state.timing = .ok p)
    (hfinal : p.requiredFinalizedEpoch ≤ head.finalizedEpoch) (skipped : Nat)
    (h : skipped ≤ min (walkback s state) p.targetSlot.toNat) (block : Chain.Block) :
    (launch s state).run.Ends (⟨.head, .ok head⟩ :: Snapshot.walked block skipped p.targetSlot)
      (.ok (some ⟨state.isMember s.node, state.interval, elapsed,
        ⟨endTime, p, block.slot, block.executionBlock⟩⟩)) := by
  have hdue : ¬ (!state.isMember s.node && s.treeMode != .generate) = true := by
    rcases hconcerned with hmember | hmode
    · simp [hmember]
    · simp [hmode]
  unfold launch
  dsimp only
  rw [if_neg hdue, helapsed]
  refine ends_run_bind.mpr ⟨elapsed, [], _, rfl, .refl _, ?_⟩
  rw [if_neg hclosed, hend]
  refine ends_run_bind.mpr ⟨endTime, [], _, rfl, .refl _, ?_⟩
  refine ends_run_bind.mpr ⟨(), [], _, rfl, .note (.refl _), ?_⟩
  refine ends_run_bind.mpr ⟨head, [⟨.head, .ok head⟩], _, rfl, .ask (.refl _), ?_⟩
  have hresolve := Snapshot.ends_resolve hplan hfinal h block
  exact ends_run_bind.mpr ⟨.ready _, _, [], (List.append_nil _).symm, hresolve, .refl _⟩

theorem ends_run_of_launch {s : Settings} {state : NetworkState} {t : List (Exchange Request Answer)}
    {j : Job} (h : (launch s state).run.Ends t (.ok (some j))) :
    (SubmitRewards.run s state).run.Ends t (.ok (some ⟨SubmitRewards.name, j.execute s⟩)) :=
  ends_run_option.mpr ⟨j, rfl, h⟩

end SnapshotRequest

/-! ### A round -/

namespace Sample

def settings : Settings where
  node := 7
  store := ⟨"", "mainnet"⟩
  treeMode := .download
  fees := ⟨none, none⟩
  twapPool := none
  messengers := []
  maxWalkback := none

def state : NetworkState where
  block := 21000
  slot := 170
  timing := ⟨1000, 12, 32⟩
  interval := ⟨5, 1100, 1000⟩
  prices := ⟨false, 0, 0⟩
  members := [⟨7, 0⟩]

def job : Job := ⟨true, state.interval, 1, ⟨2100, ⟨95, 2, 3⟩, 94, 1094⟩⟩

def asked : List (Exchange Request Answer) :=
  [⟨.head, .ok ⟨170, 5, 3⟩⟩, ⟨.block 95, .ok none⟩, ⟨.block 94, .ok (some ⟨94, 1094⟩)⟩]

theorem ends_launch : (launch settings state).run.Ends asked (.ok (some job)) :=
  SnapshotRequest.ends_launch_of_due (p := ⟨95, 2, 3⟩) (.inl (by decide)) rfl (by decide) rfl rfl
    (by decide) 1 (by decide) ⟨94, 1094⟩

theorem ends_run : (SubmitRewards.run settings state).run.Ends asked
    (.ok (some ⟨SubmitRewards.name, job.execute settings⟩)) :=
  SnapshotRequest.ends_run_of_launch ends_launch

end Sample

/-- Whatever the state of the network and the answers are, the request that comes of a round is the one that
is due; and of rounds with the same interval, timing and network, whose slots were answered alike, all that
ask for as many elapsed intervals ask for the same. -/
theorem request_of_round {s : Settings} {state : NetworkState} {t t' : List (Exchange Request Answer)}
    {b : Background Request Answer} {r : Generation.Request}
    (hround : (SubmitRewards.run s state).run.Ends t (.ok (some b)))
    (hasks : b.work.run.Asks t' (.generate r)) :
    SnapshotRequest s state t r ∧
    ∀ {s' state' u u' b' r'}, (SubmitRewards.run s' state').run.Ends u (.ok (some b')) →
      b'.work.run.Asks u' (.generate r') → state'.interval = state.interval →
      state'.timing = state.timing → s'.store.network = s.store.network →
      (∀ slot a b, ⟨.block slot, a⟩ ∈ t → ⟨.block slot, b⟩ ∈ u → a = b) →
      r'.intervalsPassed = r.intervalsPassed → r' = r := by
  have hsettled : ∀ {s state t t' b r}, (SubmitRewards.run s state).run.Ends t (.ok (some b)) →
      b.work.run.Asks t' (.generate r) → SnapshotRequest s state t r := by
    intro s state t t' b r hround hasks
    obtain ⟨j, rfl, hj⟩ := (SnapshotRequest.run_guides s state).ends hround b rfl
    rw [SnapshotRequest.request_of_asks hasks]
    exact hj
  refine ⟨hsettled hround hasks, ?_⟩
  intro s' state' u u' b' r' hround' hasks'
  exact (hsettled hround hasks).agrees (hsettled hround' hasks')

theorem request_of_sample_round :
    (SubmitRewards.run Sample.settings Sample.state).run.Ends Sample.asked
      (.ok (some ⟨SubmitRewards.name, Sample.job.execute Sample.settings⟩)) ∧
    SnapshotRequest Sample.settings Sample.state Sample.asked ⟨"mainnet", 5, 1, 1100, 2100, 94, 1094⟩ := by
  have hasks : (Sample.job.execute Sample.settings).run.Asks
      [⟨.disk (.read (Sample.settings.store.treePath 5)), .error .notFound⟩]
      (.generate ⟨"mainnet", 5, 1, 1100, 2100, 94, 1094⟩) :=
    (asks_iff_admits _ _ _).mpr ⟨rfl, rfl⟩
  exact ⟨Sample.ends_run, (request_of_round Sample.ends_run hasks).1⟩

end OracleDuty
