import OracleDuty.Proofs.Duty.Round
import OracleDuty.Proofs.OneRelayer
/-!
What the three tasks do for a state whose oracle set does not have the node.

Main statement: `outside_of_asks`.
-/
namespace OracleDuty

/-- What an execution of a task asks for a state, after some exchanges: in the round, or in the background
work that the round has called for. -/
inductive Task.Asks {Q : Type} {A : Q → Type} (t : Task Q A) (state : NetworkState) :
    List (Exchange Q A) → Q → Prop where
  | round {u : List (Exchange Q A)} {q : Q} (h : (t.run state).run.Asks u q) : Task.Asks t state u q
  | background {u v : List (Exchange Q A)} {q : Q} {b : Background Q A}
    (h : (t.run state).run.Ends u (.ok (some b))) (hb : b.work.run.Asks v q) :
    Task.Asks t state (u ++ v) q

namespace Duty

/-- Requests by which a node acts as a member: transactions, uploads, and looks at what it has submitted. -/
def Request.Acts : Request → Prop
  | .submit .. => True
  | .upload .. => True
  | .flag .. => True
  | _ => False

def Generated (u : List (Exchange Request Answer)) : Prop := ∃ e ∈ u, ∃ r, e.request = .generate r

/-- What an execution may ask for a state without the node, by the name of its task: a first look at the
rates, and if trees are generated by all nodes, the blocks of the snapshot, the tree that is stored, one
generation, and the steps in which the performance file and the tree are written. -/
inductive Outside (s : Settings) (state : NetworkState) (u : List (Exchange Request Answer)) :
    String → Request → Prop where
  | rates (hu : u = []) : Outside s state u RelayPrices.name (.stale s.messengers state.block)
  | snapshot {q : Request} (hmode : s.treeMode = .generate) (hq : ReadsSnapshot q) :
    Outside s state u SubmitRewards.name q
  | stored (hmode : s.treeMode = .generate) :
    Outside s state u SubmitRewards.name (.disk (.read (s.store.treePath state.interval.index)))
  | generation (hmode : s.treeMode = .generate) (hu : ¬Generated u) (r : Generation.Request) :
    Outside s state u SubmitRewards.name (.generate r)
  | file {path : Path} {content : Bytes} {step : Store.Step} {q : Request}
    (hmode : s.treeMode = .generate)
    (hpath : path = s.store.performancePath state.interval.index ∨ ∃ i, path = s.store.treePath i)
    (hq : (s.store.writing path content).asks step q) : Outside s state u SubmitRewards.name q

variable {s : Settings} {state : NetworkState} {u v : List (Exchange Request Answer)} {q : Request}

/-- Nothing that an outsider may ask is an act of a member. -/
theorem Outside.not_acts {task : String} (h : Outside s state u task q) : ¬q.Acts := by
  cases h with
  | rates => exact id
  | snapshot hmode hq =>
    cases q with
    | head => exact id
    | block slot => exact id
    | _ => exact hq.elim
  | stored => exact id
  | generation => exact id
  | @file path content step q hmode hpath hq =>
    cases step with
    | placed => nomatch hq
    | refused => nomatch hq
    | _ =>
      cases hq
      exact id

theorem isMember_iff {node : Address} :
    state.isMember node = true ↔ ∃ m ∈ state.members, m.address = node := by
  simp [NetworkState.isMember]

/-! ### Prices -/

/-- An outsider looks at the flags of the messengers, and then at nothing more. -/
theorem RelayPrices.outside_of_asks (hmember : state.isMember s.node = false)
    (h : (RelayPrices.run s state).run.Asks u q) : Outside s state u RelayPrices.name q := by
  -- the turn to relay goes to members only
  have hidle : ¬RelayPrices.Leads state s.node := by
    intro hleads
    have htrue := isMember_iff.mpr (RelayPrices.mem_of_leads hleads)
    exact Bool.false_ne_true (hmember.symm.trans htrue)
  have hruns : (Script.once (.stale s.messengers state.block)).Guides false (RelayPrices.run s state)
      (fun _ => True) fun _ _ => True := RelayPrices.run_reads_of_idle hidle ⟨rfl, rfl⟩
  obtain ⟨hu, rfl⟩ := Program.Follows.asks_once hruns h
  exact .rates hu

/-- A node that is no member has no price to report. -/
theorem SubmitPrices.launch_of_outsider (hmember : state.isMember s.node = false) :
    (Script.only fun _ => False).Guides () (SubmitPrices.launch s state) (fun _ => False)
      fun _ job => job = none := by
  unfold SubmitPrices.launch
  dsimp only
  split
  · exact rfl
  · rw [hmember]
    exact rfl

/-! ### Rewards -/

namespace SubmitRewards

/-- A node that is no member and generates no trees has no tree to see to. -/
theorem launch_of_outsider (hmember : state.isMember s.node = false) (hmode : s.treeMode ≠ .generate) :
    (Script.only fun _ => False).Guides () (launch s state) (fun _ => False) fun _ job => job = none := by
  unfold launch
  dsimp only
  rw [if_pos (by simpa [hmember] using hmode)]
  exact rfl

def Errand.Plain : Errand → Prop
  | performance _ => True
  | tree _ => True
  | _ => False

def Phase.Apart (v : List (Exchange Request Answer)) : Phase → Prop
  | reading => ¬Generated v
  | generating => ¬Generated v
  | creating e => e.Plain
  | writing e => e.Plain
  | placing e => e.Plain
  | ended => True
  | _ => False

variable {j : Job}

theorem apart_attesting (hj : j.isMember = false) (t : RewardsTree) : (Phase.attesting j t).Apart v := by
  unfold Phase.attesting
  rw [hj]
  trivial

/-- What an outsider stores leads it to a phase that is still an outsider's: nothing is packed for others. -/
theorem apart_stored (hj : j.isMember = false) {e : Errand} (he : e.Plain) :
    (Phase.stored j e).Apart v := by
  cases e with
  | performance r =>
    simp only [Phase.stored, hj]
    trivial
  | tree t => exact apart_attesting hj t
  | packedPerformance r => exact he.elim
  | packedTree t => exact he.elim

/-- An answer leads an outsider's execution on among the phases that an outsider's may be in. -/
theorem Phase.Goes.apart (hj : j.isMember = false) {m m' : Phase} {a : Answer q}
    (h : Phase.Goes s j m q a m') (hm : m.Apart v) : m'.Apart (v ++ [⟨q, a⟩]) := by
  cases h with
  | found hd hk => exact apart_attesting hj _
  | missing hr =>
    rintro ⟨e, he, r, hgenerate⟩
    rcases List.mem_append.mp he with he | he
    · exact hm ⟨e, he, r, hgenerate⟩
    · cases List.mem_singleton.mp he
      nomatch hgenerate
  | generated reply => trivial
  | created e => exact hm
  | written e => exact hm
  | placed e => exact apart_stored hj hm
  | published => exact hm.elim
  | unrecorded => exact hm.elim
  | uploaded => exact hm.elim
  | ended => trivial

/-- Every request of an execution that is not a member's belongs to a phase of such executions. -/
theorem apart_of_asks (hj : j.isMember = false) (h : (j.execute s).run.Asks v q) :
    ∃ m, m.Apart v ∧ (script s j).asks m q := by
  have hadmits := (asks_iff_admits j v q).mp h
  refine ⟨_, ?_, hadmits.asks⟩
  refine hadmits.invariant (P := fun v m => m.Apart v) ?_ ?_
  · rintro ⟨e, he, -⟩
    exact List.not_mem_nil he
  · intro v m q a hm hq
    exact (goes_next hq a).apart hj hm

/-- What an outsider's execution asks from such a phase is among what an outsider may ask. -/
theorem outside_of_apart (hmode : s.treeMode = .generate) (hinterval : j.interval = state.interval)
    (hu : ∀ e ∈ u, ReadsSnapshot e.request) {m : Phase} (hm : m.Apart v) (hq : (script s j).asks m q) :
    Outside s state (u ++ v) name q := by
  -- nothing is generated to find the snapshot
  have hgenerated : ¬Generated v → ¬Generated (u ++ v) := by
    rintro hv ⟨e, he, r, hgenerate⟩
    rcases List.mem_append.mp he with he | he
    · have hreads := hu e he
      rw [hgenerate] at hreads
      exact hreads
    · exact hv ⟨e, he, r, hgenerate⟩
  have hwrites : ∀ (step : Store.Step) {e : Errand}, e.Plain →
      (s.store.writing (e.path s j) e.content).asks step q → Outside s state (u ++ v) name q := by
    intro step e he hstep
    refine .file hmode ?_ hstep
    cases e with
    | performance r => exact .inl (congrArg (fun i : Interval => s.store.performancePath i.index) hinterval)
    | tree t => exact .inr ⟨_, rfl⟩
    | packedPerformance r => exact he.elim
    | packedTree t => exact he.elim
  cases m with
  | reading =>
    cases hq
    rw [hinterval]
    exact .stored hmode
  | generating =>
    cases hq
    exact .generation hmode (hgenerated hm) _
  | creating e => exact hwrites .creating hm hq
  | writing e => exact hwrites .writing hm hq
  | placing e => exact hwrites .placing hm hq
  | ended => nomatch hq
  | _ => exact hm.elim

/-- In the round and in the work that it calls for, an outsider asks for nothing else. -/
theorem outside_of_asks (hmember : state.isMember s.node = false)
    (h : Task.Asks ⟨name, SubmitRewards.run s⟩ state u q) : Outside s state u name q := by
  cases h with
  | round h =>
    have hasks := asks_run_map.mp h
    by_cases hmode : s.treeMode = .generate
    · exact .snapshot hmode (Program.Follows.asks (launch_snapshot s state) hasks)
    · exact (Program.Follows.asks (launch_of_outsider hmember hmode) hasks).elim
  | background h hb =>
    obtain ⟨j, rfl, hends⟩ := ends_run_option.mp h
    -- work is called for by members and by those that generate trees
    have hdue := dueAt_of_launch hends
    have hmode : s.treeMode = .generate := by
      rcases hdue.concerned with htrue | hmode
      · exact absurd (hmember.symm.trans htrue) Bool.false_ne_true
      · exact hmode
    obtain ⟨m, hm, hq⟩ := apart_of_asks (hdue.isMember.trans hmember) hb
    exact outside_of_apart hmode hdue.interval
      (Program.Follows.kind_of_path (launch_snapshot s state) hends) hm hq

end SubmitRewards

/-- All that an execution of a task asks for a state without the node. -/
theorem outside_of_asks (hmember : state.isMember s.node = false) {t : Task Request Answer}
    (ht : t ∈ tasks s) (h : t.Asks state u q) : Outside s state u t.name q := by
  simp only [tasks, List.mem_cons, List.not_mem_nil, or_false] at ht
  rcases ht with rfl | rfl | rfl
  · cases h with
    | round h => exact RelayPrices.outside_of_asks hmember (asks_run_map.mp h)
    | background h =>
      obtain ⟨_, _, hnone⟩ := ends_run_map.mp h
      cases hnone
  · -- nothing is asked for prices, and no work is called for
    cases h with
    | round h =>
      exact (Program.Follows.asks (SubmitPrices.launch_of_outsider hmember) (asks_run_map.mp h)).elim
    | background h =>
      obtain ⟨j, rfl, hends⟩ := ends_run_option.mp h
      have hnone : some j = none := Program.Follows.path (SubmitPrices.launch_of_outsider hmember) hends
      cases hnone
  · exact SubmitRewards.outside_of_asks hmember h

theorem isMember_of_acts {t : Task Request Answer} (ht : t ∈ tasks s) (h : t.Asks state u q)
    (hq : q.Acts) : state.isMember s.node = true := by
  by_contra hmember
  exact (outside_of_asks (Bool.eq_false_iff.mpr hmember) ht h).not_acts hq

end Duty

end OracleDuty
