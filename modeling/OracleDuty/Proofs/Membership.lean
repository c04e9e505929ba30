import OracleDuty.Proofs.Duty.Outsider
import OracleDuty.Proofs.Unhindered
/-!
Only members act: what a node submits, publishes and looks up in the record of submissions is asked by
executions that were launched from a state whose oracle set has the node.

Main statement: `only_members_act`.
-/
namespace OracleDuty

open Duty

/-! ### Executions and the states that they were launched from -/

section

variable {Q : Type} {A : Q → Type}

def beforeStart (number : Nat) : List (Event Q A) → List (Event Q A)
  | [] => []
  | .started n _ :: log => if n = number then log else beforeStart number log
  | _ :: log => beforeStart number log

/-- The log is split where the execution was started. -/
theorem exists_beforeStart {number : Nat} {b : Background Q A} {log : List (Event Q A)}
    (h : .started number b ∈ log) :
    ∃ later b', log = later ++ .started number b' :: beforeStart number log := by
  -- what is logged later does not matter
  have hlater : ∀ {e : Event Q A} {log : List (Event Q A)},
      beforeStart number (e :: log) = beforeStart number log →
      (∃ later b', log = later ++ .started number b' :: beforeStart number log) →
      ∃ later b', e :: log = later ++ .started number b' :: beforeStart number (e :: log) := by
    rintro e log he ⟨later, b', hlog⟩
    refine ⟨e :: later, b', ?_⟩
    rw [he, List.cons_append, ← hlog]
  induction log with
  | nil => cases h
  | cons e log ih =>
    cases e with
    | started n b' =>
      by_cases hn : n = number
      · subst hn
        exact ⟨[], b', by rw [beforeStart, if_pos rfl, List.nil_append]⟩
      · have hmem : .started number b ∈ log := by
          rcases List.mem_cons.mp h with h | h
          · cases h
            exact absurd rfl hn
          · exact h
        exact hlater (by rw [beforeStart, if_neg hn]) (ih hmem)
    | sent n q => exact hlater rfl (ih ((List.mem_cons.mp h).resolve_left nofun))
    | heard n q a => exact hlater rfl (ih ((List.mem_cons.mp h).resolve_left nofun))

/-- All that an execution in the background has asked and heard. -/
def heardBy : Option Nat → List (Event Q A) → List (Exchange Q A)
  | none, _ => []
  | some number, log => trace number log

end

/-- The oracle set of the state that a request is sent for: the one that the round has read, or the one that
had been read when the execution was started. -/
def launchedFrom : Option Nat → List (Event Request Answer) → Option (List Member)
  | none, log => membersRead log
  | some number, log => membersRead (beforeStart number log)

/-! ### Rounds -/

/-- The foregrounds of the controller: rounds, whatever it remembers. -/
inductive Rounds (s : Settings) : Foreground Request Answer Controller → Prop where
  | round (c : Controller) : Rounds s (Duty.round s c)

def rounds (s : Settings) : Script (Command Request Answer) Command.Answer (Option (List Member)) where
  asks known
    | .ask q => Loading known q ∨
      ∃ state, known = some state.members ∧ ∃ t ∈ tasks s, ∃ u, (t.run state).run.Asks u q
    | .start _ b =>
      ∃ state, known = some state.members ∧ ∃ t ∈ tasks s, ∃ u, (t.run state).run.Ends u (.ok (some b))
  next known
    | .ask q, a => nextMembers known q a
    | .start .., _ => known

variable {s : Settings}

theorem nextMembers_of_upfront {known : Option (List Member)} {q : Request} (h : Upfront q)
    (a : Answer q) : nextMembers known q a = known := by
  cases q with
  | timing => exact h.elim
  | members block => exact h.elim
  | _ => rfl

theorem rounds_bears (s : Settings) (state : NetworkState) : (rounds s).Bears (some state.members)
    (fun q => Upfront q ∧ ∃ t ∈ tasks s, ∃ u, (t.run state).run.Asks u q)
    fun b => ∃ t ∈ tasks s, ∃ u, (t.run state).run.Ends u (.ok (some b)) where
  ask _ hq := ⟨.inr ⟨state, rfl, hq.2⟩, fun a => nextMembers_of_upfront hq.1 a⟩
  start _ _ hb := ⟨⟨state, rfl, hb⟩, fun _ => rfl⟩

/-- What is asked in a round is asked by one of its tasks, and so is what is started. -/
theorem tasks_keep (state : NetworkState) {t : Task Request Answer} (ht : t ∈ tasks s) :
    t.Keeps state (fun q => Upfront q ∧ ∃ t ∈ tasks s, ∃ u, (t.run state).run.Asks u q)
      fun b => ∃ t ∈ tasks s, ∃ u, (t.run state).run.Ends u (.ok (some b)) := by
  have hasks : ∀ u q, (t.run state).run.Asks u q →
      Upfront q ∧ ∃ t ∈ tasks s, ∃ u, (t.run state).run.Asks u q := fun u q hq =>
    ⟨Program.Follows.asks (tasks_upfront s ht state) hq, t, ht, u, hq⟩
  refine (Program.follows_only hasks).mono ?_
  rintro _ (report | b) ⟨u, hu⟩
  · trivial
  · rintro b rfl
    exact ⟨t, ht, u, hu⟩

/-- A round keeps to its script, whatever was read before. -/
theorem Rounds.follows {f : Foreground Request Answer Controller} (h : Rounds s f)
    (known : Option (List Member)) : f.Follows (rounds s) known fun _ _ => True := by
  cases h with
  | round c =>
    have hloading : ∀ known q, viewing.asks known q → (rounds s).asked.asks (id known) q :=
      fun _ _ hq => .inl hq
    refine Controller.tick_follows (((load_views known).map hloading fun _ _ _ _ => rfl).mono ?_) c
    rintro _ (report | state) ⟨known, rfl, hstate⟩
    · trivial
    · cases hstate
      exact ⟨_, _, rounds_bears s state, fun t ht => tasks_keep state ht⟩

/-- The log tells the oracle set that the round in hand goes by. -/
theorem rounds_tracks (s : Settings) : (rounds s).Tracks membersRead where
  lead started act log := by
    cases act with
    | write line => rfl
    | send c => cases c <;> rfl
    | hear c a =>
      cases c with
      | ask q => rfl
      | start span b => cases a <;> rfl
    | panic c reason => rfl
  work n act log := by
    cases act <;> rfl

variable {σ : Type} {w : World σ Request Answer} {st : σ} {p : Process σ Request Answer Controller}

theorem Duty.Loading.not_acts {known : Option (List Member)} {q : Request} (h : Loading known q) :
    ¬q.Acts := by
  cases h <;> exact id

/-- Whatever is sent is asked to read a state, or by a task for a state with the oracle set that was read. -/
theorem asks_of_sent (h : Process.Reachable w (Rounds s) st p)
    {later earlier : List (Event Request Answer)} {number : Option Nat} {q : Request}
    (hl : p.log = later ++ .sent number q :: earlier) :
    number = none ∧ Loading (membersRead earlier) q ∨
      ∃ t ∈ tasks s, ∃ state u, launchedFrom number earlier = some state.members ∧
        t.Asks state (u ++ heardBy number earlier) q := by
  have hallows : ∀ {later e earlier}, p.log = later ++ e :: earlier →
      (rounds s).Allows (membersRead earlier) e := fun hl =>
    h.allows (rounds_tracks s) (fun _ hf known => hf.follows known) hl
  cases number with
  | none =>
    rcases hallows hl with hloading | ⟨state, hknown, t, ht, u, hasks⟩
    · exact .inl ⟨rfl, hloading⟩
    · refine .inr ⟨t, ht, state, u, hknown, ?_⟩
      rw [heardBy, List.append_nil]
      exact .round hasks
  | some n =>
    -- the execution was started before, for a task that had called for its work
    have hsound := Process.sound_of_reachable h
    obtain ⟨b, hb, hasks⟩ := hsound.apt _ _ _ hl
    obtain ⟨after, b', hstart⟩ := exists_beforeStart hb
    have hb' : .started n b' ∈ earlier := by
      rw [hstart]
      exact List.mem_append_right _ List.mem_cons_self
    have hmem : .started n b ∈ p.log := by
      rw [hl]
      exact List.mem_append_right _ (List.mem_cons_of_mem _ hb)
    obtain rfl := hsound.eq_of_started hl hmem hb'
    have hlog : p.log = (later ++ .sent (some n) q :: after) ++ .started n b' :: beforeStart n earlier := by
      rw [hl, List.append_assoc, List.cons_append, ← hstart]
    obtain ⟨-, state, hknown, t, ht, u, hends⟩ := hallows hlog
    exact .inr ⟨t, ht, state, u, hknown, .background hends hasks⟩

/-- Only members act. In every run of the controller, whatever is answered and whatever the store holds,
transactions are submitted, artifacts uploaded and submissions looked up for a state whose oracle set has the
node; whatever else is sent is asked to read a state, or by a task for a state with the oracle set that was
read when the task was run; and for a state without the node a task asks for nothing but the rates that are out
of date, and if trees are generated by all nodes, for the blocks of the snapshot, the stored tree, one
generation, and the writing of its files. -/
theorem only_members_act (h : Process.Reachable w (Rounds s) st p) :
    (∀ later number q earlier, p.log = later ++ .sent number q :: earlier → q.Acts →
      ∃ members, launchedFrom number earlier = some members ∧ ∃ m ∈ members, m.address = s.node) ∧
    (∀ later number q earlier, p.log = later ++ .sent number q :: earlier →
      number = none ∧ Loading (membersRead earlier) q ∨
        ∃ t ∈ tasks s, ∃ state u, launchedFrom number earlier = some state.members ∧
          t.Asks state (u ++ heardBy number earlier) q) ∧
    ∀ t ∈ tasks s, ∀ state, state.isMember s.node = false → ∀ u q, t.Asks state u q →
      Outside s state u t.name q := by
  refine ⟨?_, fun _ _ _ _ hl => asks_of_sent h hl, fun t ht state hmember u q hasks =>
    outside_of_asks hmember ht hasks⟩
  intro later number q earlier hl hacts
  rcases asks_of_sent h hl with ⟨-, hloading⟩ | ⟨t, ht, state, u, hfrom, hasks⟩
  · exact absurd hacts hloading.not_acts
  · exact ⟨_, hfrom, isMember_iff.mp (isMember_of_acts ht hasks hacts)⟩

namespace Membership.Sample

open Duty.RelayPrices.Turns.Sample

def answers : (q : Request) → Answer q
  | .timing => .ok state.timing
  | .head => .ok ⟨state.slot, 5, 3⟩
  | .latestBlock => .ok state.block
  | .rewardInterval _ => .ok state.interval
  | .priceSettings _ => .ok state.prices
  | .members _ => .ok state.members
  | .stale .. => .ok [false, true]
  | .submit .. => .ok 7
  | q => OracleDuty.Sample.answers q

def reads : List (Exchange Request Answer) := [
  ⟨.timing, .ok state.timing⟩,
  ⟨.head, .ok ⟨170, 5, 3⟩⟩,
  ⟨.latestBlock, .ok 80⟩,
  ⟨.rewardInterval 80, .ok state.interval⟩,
  ⟨.priceSettings 80, .ok state.prices⟩,
  ⟨.members 80, .ok state.members⟩,
  ⟨.stale [(.optimism, 20), (.base, 21)] 80, .ok [false, true]⟩]

def relayed : Exchange Request Answer :=
  ⟨.submit (.submitRate .base 21 .plain) ⟨0, none, some 50, none⟩, .ok 7⟩

theorem path_round : ∃ r, (Duty.round settings .fresh).Path ((reads ++ [relayed]).map Process.asked) r :=
  ⟨_, .ask (.ask (.ask (.ask (.ask (.ask (.note (.note (.note (.ask (.note (.note
    (.ask (.refl _)))))))))))))⟩

theorem serves_round : ∃ st, (Scene.world settings.node answers).Serves ⟨OracleDuty.Sample.disk, []⟩
    (reads ++ [relayed]) st := by
  have hreads : ∀ e ∈ reads, Scene.Steady e.request ∧ e.answer = answers e.request := by
    simp only [reads, List.forall_mem_cons]
    exact ⟨⟨trivial, rfl⟩, ⟨trivial, rfl⟩, ⟨trivial, rfl⟩, ⟨trivial, rfl⟩, ⟨trivial, rfl⟩, ⟨trivial, rfl⟩,
      ⟨trivial, rfl⟩, List.forall_mem_nil _⟩
  exact ⟨_, (Scene.serves_steady settings.node hreads _).append ⟨_, rfl, rfl⟩⟩

theorem reachable : ∃ p, Process.Reachable (Scene.world settings.node answers) (Rounds settings)
    ⟨OracleDuty.Sample.disk, []⟩ p ∧ p.log = transcript none (reads ++ [relayed]) := by
  obtain ⟨r, hpath⟩ := path_round
  obtain ⟨st, hserves⟩ := serves_round
  let e : Engine Scene Request Answer := Engine.idle ⟨OracleDuty.Sample.disk, []⟩
  have hquiet : ∀ line e, (Engine.foreground (Scene.world settings.node answers)).write line e = e :=
    fun _ _ => rfl
  have hcarries := (Process.serves_asked (e := e) hserves).carries hquiet hpath
  have hidle : Process.Reachable (Scene.world settings.node answers) (Rounds settings) e.world
    ⟨e, none, []⟩ := .refl
  refine ⟨_, (hidle.tail (.trigger (.round .fresh))).trans (Process.lead_steps hcarries []), ?_⟩
  have hlog := Process.leadTranscript_asked 0 (reads ++ [relayed]) []
  rw [List.append_nil] at hlog
  exact (List.append_nil _).trans hlog

end Membership.Sample

theorem only_members_act_sample : ∃ p,
    Process.Reachable (Scene.world 11 Membership.Sample.answers)
      (Rounds Duty.RelayPrices.Turns.Sample.settings) ⟨Sample.disk, []⟩ p ∧
    ∃ later earlier, p.log = later ++ .sent none Membership.Sample.relayed.request :: earlier ∧
      ∃ members, launchedFrom none earlier = some members ∧ ∃ m ∈ members, m.address = 11 := by
  obtain ⟨p, hp, hlog⟩ := Membership.Sample.reachable
  rw [transcript_append] at hlog
  obtain ⟨hacts, -, -⟩ := only_members_act hp
  exact ⟨p, hp, [_], _, hlog, hacts [_] _ _ _ hlog trivial⟩

end OracleDuty
