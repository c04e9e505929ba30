import Mathlib.Data.List.Nodup
import OracleDuty.Proofs.Unhindered
/-!
A tree that was stored is taken up again: once an execution has stored its tree, it does not matter whether it
goes on itself or is cut off and another execution for the same interval begins anew. From there on both ask
the same, and the stored tree stays as it is.

The main statement is `restart_transparent`. It is shown in three parts: what the execution has stored
(`stored_tree`), that the file stays (`read_of_placed`), and that an execution that finds it goes through the
same phases as the one that stored it (`admits_attesting`).
-/
namespace OracleDuty

open Duty Duty.SubmitRewards

namespace Restart

variable {s : Settings} {i k : UInt64} {j j₁ j₂ : Job} {m : Phase} {n : Nat}

/-! ### The phases after a tree was stored or found -/

inductive Attesting (t : RewardsTree) : Phase → Prop
  | checking : Attesting t (.checking t)
  | creating : Attesting t (.creating (.packedTree t))
  | writing : Attesting t (.writing (.packedTree t))
  | placing : Attesting t (.placing (.packedTree t))
  | uploading : Attesting t (.uploadingTree t)
  | submitting (cid : String) : Attesting t (.submitting t cid)
  | ended : Attesting t .ended

/-- What is asked to attest a tree: nothing is generated, and no other file is written or uploaded. -/
inductive Attests (s : Settings) (i : UInt64) (t : RewardsTree) : Request → Prop
  | checks : Attests s i t
    (.flag (Submission.key .rewardsSnapshot s.node (RewardsTree.word i) none) none)
  | creates : Attests s i t (.disk (.createDirectories s.store.directory))
  | writes : Attests s i t (.disk (.write
    (Store.temporaryPath (Store.compressedPath (s.store.treePath i)))
    (Zstd.compress (Bytes.ofString t.encode))))
  | places : Attests s i t (.disk (.rename
    (Store.temporaryPath (Store.compressedPath (s.store.treePath i)))
    (Store.compressedPath (s.store.treePath i))))
  | uploads : Attests s i t (.upload
    (Path.fileName (Store.compressedPath (s.store.treePath i)))
    (Zstd.compress (Bytes.ofString t.encode)))
  | submits (cid : String) : Attests s i t
    (.submit (.submitRewardSnapshot (t.submission cid)) (s.options 0))

/-- In these phases nothing is generated, and no other file is written or uploaded. -/
theorem Attesting.attests {t : RewardsTree} (h : Attesting t m) (hj : j.interval.index = i) {q : Request}
    (hq : (script s j).asks m q) : Attests s i t q := by
  subst hj
  cases h with
  | checking =>
    cases hq
    exact .checks
  | creating =>
    cases hq
    exact .creates
  | writing =>
    cases hq
    exact .writes
  | placing =>
    cases hq
    exact .places
  | uploading =>
    cases hq
    exact .uploads
  | submitting cid =>
    cases hq
    exact .submits cid
  | ended => nomatch hq

theorem Attesting.next {t : RewardsTree} (h : Attesting t m) {q : Request} (a : Answer q)
    (hq : (script s j).asks m q) : Attesting t ((script s j).next m q a) := by
  have hgo := goes_next hq a
  generalize (script s j).next m q a = m' at hgo
  cases h <;> cases hgo <;> constructor

/-- In these phases jobs for the same interval go the same way. -/
theorem Attesting.congr {t : RewardsTree} (h : Attesting t m) {q : Request} (a : Answer q)
    (hq : (script s j₁).asks m q) : (script s j₁).next m q a = (script s j₂).next m q a := by
  cases h with
  | checking =>
    cases hq
    rcases a with e | _ | _ <;> rfl
  | ended => nomatch hq
  | _ =>
    cases hq
    rcases a with e | x <;> rfl

theorem Attesting.asks_iff {t : RewardsTree} (h : Attesting t m)
    (hj : j₁.interval.index = j₂.interval.index) (q : Request) :
    (script s j₁).asks m q ↔ (script s j₂).asks m q := by
  cases h <;> simp only [script, Phase.request?, Errand.path, hj]

/-- Jobs for the same interval admit the same once they attest the same tree. -/
theorem admits_attesting {t : RewardsTree} (hj : j₁.interval.index = j₂.interval.index)
    (u : List (Exchange Request Answer)) (q : Request) :
    (script s j₁).Admits (.checking t) u q ↔ (script s j₂).Admits (.checking t) u q := by
  apply Script.admits_congr (Attesting t)
  · intro m q h
    exact h.asks_iff hj q
  · intro m q a h hq
    exact ⟨h.congr a hq, h.next a hq⟩
  · exact .checking

theorem attests_of_admits {t : RewardsTree} (hj : j.interval.index = i) (h : Attesting t m)
    {u : List (Exchange Request Answer)} {q : Request} (hu : (script s j).Admits m u q) :
    Attests s i t q := by
  induction u generalizing m with
  | nil => exact h.attests hj hu
  | cons e u ih => exact ih (h.next e.answer hu.1) hu.2

/-! ### What an execution has stored -/

def Given (log : List (Event Request Answer)) (n : Nat) (r : Generation.Reply) : Prop :=
  ∃ request, .heard (some n) (.generate request) (.ok r) ∈ log

def MadeFor (log : List (Event Request Answer)) (n : Nat) : Errand → Prop
  | .performance r => Given log n r
  | .packedPerformance r => Given log n r
  | .tree t => ∃ r cid, Given log n r ∧ t = withPerformance r.tree cid
  | .packedTree _ => True

def Made (s : Settings) (j : Job) (log : List (Event Request Answer)) (n : Nat) : Phase → Prop
  | .creating e => MadeFor log n e
  | .writing e => MadeFor log n e
  | .placing e => MadeFor log n e ∧
    .heard (some n) (.disk (.write (Store.temporaryPath (e.path s j)) e.content)) (.ok ()) ∈ log
  | .uploadingPerformance r => Given log n r
  | _ => True

variable {log log' : List (Event Request Answer)}

theorem Given.mono {r : Generation.Reply} (h : Given log n r) (hl : ∀ e ∈ log, e ∈ log') :
    Given log' n r := h.imp fun _ hr => hl _ hr

theorem MadeFor.mono {e : Errand} (h : MadeFor log n e) (hl : ∀ e ∈ log, e ∈ log') :
    MadeFor log' n e := by
  cases e with
  | tree t =>
    obtain ⟨r, cid, hr, ht⟩ := h
    exact ⟨r, cid, hr.mono hl, ht⟩
  | packedTree t => trivial
  | _ => exact Given.mono h hl

theorem Made.mono (h : Made s j log n m) (hl : ∀ e ∈ log, e ∈ log') : Made s j log' n m := by
  cases m with
  | creating e => exact MadeFor.mono h hl
  | writing e => exact MadeFor.mono h hl
  | placing e => exact ⟨h.1.mono hl, hl _ h.2⟩
  | uploadingPerformance r => exact Given.mono h hl
  | _ => trivial

/-- What is on its way into the store stays what the execution was given, with its identifier. -/
theorem Made.next (h : Made s j log n m) {q : Request} {a : Answer q} (hq : (script s j).asks m q) :
    Made s j (.heard (some n) q a :: log) n ((script s j).next m q a) := by
  have hgo := goes_next hq a
  have hkept : Made s j (.heard (some n) q a :: log) n m :=
    h.mono fun e he => List.mem_cons_of_mem _ he
  generalize (script s j).next m q a = m' at hgo
  cases hgo with
  | found => exact attesting_cases (motive := Made s j _ n) trivial trivial
  | generated reply => exact ⟨_, List.mem_cons_self⟩
  | created e => exact hkept
  | written e => exact ⟨hkept, List.mem_cons_self⟩
  | placed e =>
    cases e with
    | performance r =>
      exact stored_performance_cases (motive := Made s j _ n) hkept.1 ⟨r, _, hkept.1, rfl⟩
    | packedPerformance r => exact hkept.1
    | tree t => exact attesting_cases (motive := Made s j _ n) trivial trivial
    | packedTree t => trivial
  | published r file content cid => exact ⟨r, cid, hkept, rfl⟩
  | unrecorded t => trivial
  | _ => trivial

variable {σ : Type} {w : World σ Request Answer} {disk : σ → Disk}

/-- An execution stores only what was made of a reply that it was given. -/
theorem upholds_made (hd : UsesDisk w disk) : Upholds s w disk (fun _ _ => True) fun log d n j m =>
    Written s j d m ∧ Made s j log n m where
  fact_mono _ _ := trivial
  mono h hl := ⟨h.1, h.2.mono hl⟩
  start _ _ := ⟨trivial, trivial⟩
  does := by
    rintro log d d' n j m hdoes _ ⟨hw, hm⟩
    exact ⟨trivial, hw.does hdoes, hm⟩
  hear := by
    rintro log st st' n j m q a hq ha _ ⟨_, hm⟩
    exact ⟨hd.written hq ha, hm.next hq⟩

/-- An execution has stored the tree of the interval. -/
abbrev placed (s : Settings) (i : UInt64) (n : Nat) : Event Request Answer :=
  .heard (some n)
    (.disk (.rename (Store.temporaryPath (s.store.treePath i)) (s.store.treePath i))) (.ok ())

theorem after_rewards (j : Job) (m : Phase) (t : List (Exchange Request Answer)) :
    (roleScript s).after (.rewards j m) t = .rewards j ((script s j).after m t) := by
  induction t generalizing m with
  | nil => rfl
  | cons e t ih => exact ih _

theorem trace_placed (log : List (Event Request Answer)) : trace n (placed s i n :: log) =
    trace n log ++ [⟨.disk (.rename (Store.temporaryPath (s.store.treePath i)) (s.store.treePath i)),
      .ok ()⟩] := by
  rw [trace_cons]
  simp [Event.exchange?]

/-- Where a tree is moved into its place, it is a tree of the interval that is moved. -/
theorem placing_of_asks (hq : (script s j).asks m
    (.disk (.rename (Store.temporaryPath (s.store.treePath i)) (s.store.treePath i)))) :
    ∃ t, m = .placing (.tree t) ∧ t.header.index = i := by
  cases m with
  | placing e =>
    have hreq : Errand.path s j e = s.store.treePath i := by
      injection hq with hq
      injection hq with hq
      injection hq
    obtain ⟨t, rfl, ht⟩ := Errand.eq_tree_of_path hreq
    exact ⟨t, rfl, ht⟩
  | _ => nomatch hq

variable {st : σ} {p p₀ p₁ : Process σ Request Answer Controller}

/-- The step by which a tree is stored: it was made of a reply and written before, and now it is there. -/
theorem placed_step (hd : UsesDisk w disk) (h₀ : Process.Reachable w (Trigger s) st p₀)
    (hstep : Process.Step w (Trigger s) p₀ p₁) (hlog : p₁.log = placed s i n :: p₀.log)
    (hstart : .started n (work s j) ∈ p₀.log) :
    ∃ t, (script s j).after .reading (trace n p₀.log) = .placing (.tree t) ∧ t.header.index = i ∧
      Made s j p₀.log n (.placing (.tree t)) ∧
      (disk p₁.engine.world).read (s.store.treePath i) = .ok (treeBytes t) := by
  have hheld := ((upholds_made hd).keeps hd).reachable (discipline_valid s) trivial h₀
  obtain ⟨ha, _, hat⟩ :=
    hheld.heard (discipline_valid s) (Process.sound_of_reachable h₀) hstep hlog
  obtain ⟨hrests, hq⟩ := hat _ _ hstart (.rewards j)
  have hstage : (discipline s).script.after (.rewards j .reading) (trace n p₀.log) =
      .rewards j ((script s j).after .reading (trace n p₀.log)) := after_rewards j _ _
  rw [hstage] at hrests hq
  obtain ⟨t, ht, rfl⟩ := placing_of_asks (m := (script s j).after .reading (trace n p₀.log)) hq
  obtain ⟨hw, hmade⟩ := hrests.2 j _ rfl
  rw [ht] at hw hmade
  exact ⟨t, ht, rfl, hmade, (hd.placed hw ha).2⟩

/-- What an execution has stored was made of a reply that it was given, and was written before. -/
theorem stored_tree (hd : UsesDisk w disk) (hp : Process.Reachable w (Trigger s) st p)
    {earlier later : List (Event Request Answer)} (hlog : p.log = later ++ placed s i n :: earlier)
    (hstart : .started n (work s j) ∈ earlier) :
    ∃ t : RewardsTree, (script s j).after .reading (trace n earlier) = .placing (.tree t) ∧
      t.header.index = i ∧ MadeFor earlier n (.tree t) ∧
      .heard (some n) (.disk (.write (Store.temporaryPath (s.store.treePath i)) (treeBytes t)))
        (.ok ()) ∈ earlier := by
  obtain ⟨p₀, p₁, h₀, hstep, rfl, hlog₁, _⟩ := hp.split hlog
  obtain ⟨t, ht, rfl, ⟨hmade, hwritten⟩, _⟩ := placed_step hd h₀ hstep hlog₁ hstart
  exact ⟨t, ht, rfl, hmade, hwritten⟩

/-- After it the execution is the only one of its task, and goes on to attest. -/
theorem stage_of_placed (hd : UsesDisk w disk) (h₀ : Process.Reachable w (Trigger s) st p₀)
    (hstep : Process.Step w (Trigger s) p₀ p₁) (hlog : p₁.log = placed s i n :: p₀.log)
    (hstart : .started n (work s j) ∈ p₀.log) {y : Execution Request Answer}
    (hy : y ∈ p₁.engine.executions) {j' : Job} (hb : .started y.number (work s j') ∈ p₁.log) :
    ∃ t, (script s j').after .reading (trace y.number p₁.log) = Phase.attesting j' t := by
  have h₁ : Process.Reachable w (Trigger s) st p₁ := Relation.ReflTransGen.tail h₀ hstep
  have hs₁ := Process.sound_of_reachable h₁
  have hheld₀ := ((upholds_made hd).keeps hd).reachable (discipline_valid s) trivial h₀
  obtain ⟨_, ⟨x, hx, rfl⟩, _⟩ :=
    hheld₀.heard (discipline_valid s) (Process.sound_of_reachable h₀) hstep hlog
  -- both are in the lane of the task
  have hlane : ∀ z ∈ p₁.engine.executions, ∀ j : Job, .started z.number (work s j) ∈ p₁.log →
      z.lane = SubmitRewards.name := by
    intro z hz j hj
    obtain ⟨b, _, hb, hl, _⟩ := hs₁.origin z hz
    cases hs₁.unique _ _ _ hj hb
    exact hl.symm
  have hbx : .started x.number (work s j) ∈ p₁.log := by
    rw [hlog]
    exact List.mem_cons_of_mem _ hstart
  have hsame : y.lane = x.lane := (hlane y hy j' hb).trans (hlane x hx j hbx).symm
  have hxy : y = x := List.inj_on_of_nodup_map hs₁.lanes hy hx hsame
  subst hxy
  have hb₀ : .started y.number (work s j') ∈ p₀.log := by
    rw [hlog] at hb
    exact (List.mem_cons.mp hb).resolve_left nofun
  obtain ⟨t, ht, rfl, _⟩ := placed_step hd h₀ hstep hlog hb₀
  refine ⟨t, ?_⟩
  rw [hlog, trace_placed, Script.after, List.foldl_append]
  exact congrArg (fun m => (script s j').next m _ _) ht

/-! ### The tree stays -/

/-- All jobs of the task for the interval are for the same count of elapsed intervals. -/
def Calm (s : Settings) (i k : UInt64) (later : List (Event Request Answer)) : Prop :=
  ∀ n j, .started n (work s j) ∈ later → j.interval.index = i → j.intervalsPassed = k

def SparesPlace (i : UInt64) (j : Job) : Errand → Prop
  | .performance r => j.interval.index ≠ i ∧ r.tree.header.index ≠ i
  | .packedPerformance r => r.tree.header.index ≠ i
  | .tree t => t.header.index ≠ i
  | .packedTree _ => True

def Spares (i k : UInt64) (j : Job) : Phase → Prop
  | .reading => j.interval.index = i → j.intervalsPassed = k
  | .generating => j.interval.index ≠ i
  | .creating e => SparesPlace i j e
  | .writing e => SparesPlace i j e
  | .placing e => SparesPlace i j e
  | .uploadingPerformance r => r.tree.header.index ≠ i
  | _ => True

theorem SparesPlace.apart {e : Errand} (h : SparesPlace i j e) :
    (e.path s j).Apart (s.store.treePath i) := by
  cases e with
  | performance r => exact Store.apart_performance h.1
  | packedPerformance r => exact Store.apart_compressed _
  | tree t => exact Store.apart_tree h
  | packedTree t => exact Store.apart_compressed _

theorem Spares.does {d d' : Disk} (h : Spares i k j m) (hd : m.Does s j d d') {content : Bytes}
    (hr : d.read (s.store.treePath i) = .ok content) : d'.read (s.store.treePath i) = .ok content := by
  refine hd.read (fun q => Store.apart_temporary q) ?_ hr
  rintro e rfl
  exact SparesPlace.apart h

variable {service : Generation.Service} {t : RewardsTree} {st' : σ}

/-- An execution that finds the tree takes it up, and one for another interval has no business with it. -/
theorem Spares.next (hr : ReadsDisk w disk) (hg : GeneratedBy service w)
    (hk : t.header.intervalsPassed = k) (h : Spares i k j m)
    (hread : (disk st).read (s.store.treePath i) = .ok (treeBytes t)) {q : Request} {a : Answer q}
    (hq : (script s j).asks m q) (ha : w.answer q st = (.answer a, st')) :
    Spares i k j ((script s j).next m q a) := by
  have hgo := goes_next hq a
  generalize (script s j).next m q a = m' at hgo
  cases hgo with
  | found => exact attesting_cases (motive := Spares i k j) trivial trivial
  | missing hmissing =>
    -- were the job for this interval, it would have found the tree
    intro hi
    have hfound := hr ha
    rw [hi, hread] at hfound
    refine hmissing _ _ hfound (Store.decode?_ofString_encode t) ?_
    rw [hk]
    exact (h hi).symm
  | generated reply =>
    have hindex : reply.tree.header.index = j.interval.index := hg.index_eq ha
    refine ⟨h, ?_⟩
    rw [hindex]
    exact h
  | created e => exact h
  | written e => exact h
  | placed e =>
    cases e with
    | performance r => exact stored_performance_cases (motive := Spares i k j) h.2 h.2
    | packedPerformance r => exact h
    | tree t => exact attesting_cases (motive := Spares i k j) trivial trivial
    | packedTree t => trivial
  | published r file content cid => exact h
  | unrecorded t => trivial
  | _ => trivial

theorem Calm.mono {later later' : List (Event Request Answer)} (h : Calm s i k later')
    (hl : ∀ e ∈ later, e ∈ later') : Calm s i k later := fun n j hj => h n j (hl _ hj)

/-- The tree of the interval stays in its place as long as the count of intervals does not change. -/
theorem upholds_tree (hr : ReadsDisk w disk) (hg : GeneratedBy service w)
    (hk : t.header.intervalsPassed = k) :
    Upholds s w disk (fun later d => Calm s i k later → d.read (s.store.treePath i) = .ok (treeBytes t))
      fun later _ _ j m => Calm s i k later → Spares i k j m where
  fact_mono h hl hcalm := h (hcalm.mono hl)
  mono h hl hcalm := h (hcalm.mono hl)
  start hstart _ hcalm := hcalm _ _ hstart
  does hdoes hread hspares := ⟨fun hcalm => (hspares hcalm).does hdoes (hread hcalm), hspares⟩
  hear := by
    intro log st st' n j m q a hq ha hread hspares hcalm
    have hcalm' : Calm s i k log := hcalm.mono fun e he => List.mem_cons_of_mem _ he
    exact (hspares hcalm').next hr hg hk (hread hcalm') hq ha

/-- From the time when a tree was stored its file stays, while all jobs for the interval are for as many
elapsed intervals as it covers. -/
theorem read_of_placed (hd : UsesDisk w disk) (hr : ReadsDisk w disk) (hg : GeneratedBy service w)
    (hp : Process.Reachable w (Trigger s) st p) {earlier later : List (Event Request Answer)}
    (hlog : p.log = later ++ placed s i n :: earlier) (hstart : .started n (work s j) ∈ earlier)
    (ht : (script s j).after .reading (trace n earlier) = .placing (.tree t))
    (hk : t.header.intervalsPassed = k) (hcalm : Calm s i k later) :
    (disk p.engine.world).read (s.store.treePath i) = .ok (treeBytes t) := by
  obtain ⟨p₀, p₁, h₀, hstep, rfl, hlog₁, hrest⟩ := hp.split hlog
  have h₁ : Process.Reachable w (Trigger s) st p₁ := Relation.ReflTransGen.tail h₀ hstep
  have hheld := ((upholds_made hd).keeps hd).reachable (discipline_valid s) trivial h₁
  obtain ⟨t', ht', _, _, hread⟩ := placed_step hd h₀ hstep hlog₁ hstart
  cases ht.symm.trans ht'
  have hkeeps := ((upholds_tree (s := s) (i := i) hr hg hk).keeps hd).since p₁.log
  -- as it was stored no other execution of the task was under way, so that all others begin later
  have hspares : (discipline s).Held
      (fun log st => ∃ later, log = later ++ p₁.log ∧
        (Calm s i k later → (disk st).read (s.store.treePath i) = .ok (treeBytes t)))
      (fun log st x => ∃ later, log = later ++ p₁.log ∧
        Rests (fun later _ _ j m => Calm s i k later → Spares i k j m) later (disk st) x) p₁ := by
    refine ⟨⟨[], rfl, fun _ => hread⟩, ?_, hheld.front, hheld.cast⟩
    intro y hy b m hb hm
    refine ⟨[], rfl, (hheld.executions y hy b m hb hm).1, ?_⟩
    intro j' m' hstage _
    cases hm with
    | rewards j'' =>
      cases (after_rewards j'' .reading _).symm.trans hstage
      obtain ⟨t', ht'⟩ := stage_of_placed hd h₀ hstep hlog₁ hstart hy hb
      rw [ht']
      exact attesting_cases (motive := Spares i k j') trivial trivial
    | prices j'' =>
      have hlane := lane_after s (.prices j'' .observing) (trace y.number p₁.log)
      have hafter : (roleScript s).after (.prices j'' .observing) (trace y.number p₁.log) =
          .rewards j' m' := hstage
      rw [hafter] at hlane
      have hnames : SubmitRewards.name = SubmitPrices.name := hlane
      exact absurd hnames (by decide)
  obtain ⟨later', hlater, hkept⟩ := (hspares.run hkeeps (discipline_valid s) h₁ hrest).fact
  rw [hlog, hlog₁] at hlater
  cases List.append_cancel_right hlater
  exact hkept hcalm

/-- An execution that is started later finds the tree. -/
theorem answer_of_read (hd : UsesDisk w disk) (hr : ReadsDisk w disk) (hg : GeneratedBy service w)
    (hp : Process.Reachable w (Trigger s) st p) {earlier later : List (Event Request Answer)}
    (hlog : p.log = later ++ placed s i n :: earlier) (hstart : .started n (work s j) ∈ earlier)
    (ht : (script s j).after .reading (trace n earlier) = .placing (.tree t))
    (hk : t.header.intervalsPassed = k) (hcalm : Calm s i k later) {n' : Nat}
    {b : Background Request Answer} (hb : .started n' b ∈ later) {r : Except Disk.Fault Bytes}
    (hread : .heard (some n') (.disk (.read (s.store.treePath i))) r ∈ p.log) :
    r = .ok (treeBytes t) := by
  have hfresh := (Process.sound_of_reachable hp).fresh hlog hb
  have hlater : .heard (some n') (.disk (.read (s.store.treePath i))) r ∈ later := by
    rw [hlog] at hread
    exact (List.mem_append.mp hread).resolve_right fun hbase => hfresh _ hbase rfl
  obtain ⟨l₂, l₁, rfl⟩ := List.append_of_mem hlater
  rw [List.append_assoc, List.cons_append] at hlog
  obtain ⟨p₀, p₁, h₀, hstep, hlog₀, hlog₁, _⟩ := hp.split hlog
  have hkept := read_of_placed hd hr hg h₀ hlog₀ hstart ht hk
    (hcalm.mono fun e he => List.mem_append_right _ (List.mem_cons_of_mem _ he))
  have hheld := ((upholds_made hd).keeps hd).reachable (discipline_valid s) trivial h₀
  have ha := (hheld.heard (discipline_valid s) (Process.sound_of_reachable h₀) hstep
    (hlog₁.trans (by rw [hlog₀]))).1
  exact (hr ha).trans hkept

/-- From the time when it has stored its tree an execution attests it. -/
theorem asks_of_placed (hj : j.isMember = true) (ht : t.header.index = i)
    {earlier : List (Event Request Answer)}
    (hasks : (j.execute s).run.Asks (trace n earlier)
      (.disk (.rename (Store.temporaryPath (s.store.treePath i)) (s.store.treePath i))))
    (hafter : (script s j).after .reading (trace n earlier) = .placing (.tree t))
    (u : List (Exchange Request Answer)) (q : Request) :
    (j.execute s).run.Asks (trace n (placed s i n :: earlier) ++ u) q ↔
      (script s j).Admits (.checking t) u q := by
  subst ht
  have hadmits := (asks_iff_admits j _ _).mp hasks
  have hnext : Phase.attesting j t = .checking t := by
    simp only [Phase.attesting, hj, if_true]
  rw [asks_iff_admits, trace_placed, List.append_assoc, hadmits.append_iff, hafter]
  refine (and_iff_right rfl).trans ?_
  change (script s j).Admits (Phase.attesting j t) u q ↔ _
  rw [hnext]

end Restart

/-- Once an execution of a member has stored the tree of an interval, it makes no difference whether it goes
on or is cut off, wherever it stands, and another one for the same interval and as many elapsed intervals
comes after it, if only jobs of that kind have come for the interval meanwhile. The file of the tree stays as
it was written. With the same answers both ask the same from there on. Whatever the later execution sends,
once it has read the file, is to attest that tree, and is what the first one would have sent; and with no
record in the registry and no failure it submits the tree. -/
theorem restart_transparent {σ : Type} {s : Settings} {w : World σ Request Answer} {disk : σ → Disk}
    {service : Generation.Service} (hd : UsesDisk w disk) (hr : ReadsDisk w disk)
    (hg : GeneratedBy service w) {st : σ} {p : Process σ Request Answer Controller}
    (hp : Process.Reachable w (Trigger s) st p) {i k : UInt64} {n₁ n₂ : Nat} {j₁ j₂ : Job}
    {earlier later : List (Event Request Answer)}
    (hlog : p.log = later ++ Restart.placed s i n₁ :: earlier)
    (hstart₁ : .started n₁ (work s j₁) ∈ earlier) (hj₁ : j₁.Covers i k)
    (hreply : ∀ request reply, .heard (some n₁) (.generate request) (.ok reply) ∈ earlier →
      reply.tree.header.intervalsPassed = k)
    (hcalm : Restart.Calm s i k later)
    (hstart₂ : .started n₂ (work s j₂) ∈ later) (hj₂ : j₂.Covers i k) :
    ∃ tree : RewardsTree,
      .heard (some n₁) (.disk (.write (Store.temporaryPath (s.store.treePath i))
        (Bytes.ofString tree.encode))) (.ok ()) ∈ earlier ∧
      (disk p.engine.world).read (s.store.treePath i) = .ok (Bytes.ofString tree.encode) ∧
      (∀ u q, (j₁.execute s).run.Asks (trace n₁ (Restart.placed s i n₁ :: earlier) ++ u) q ↔
        (j₂.execute s).run.Asks
          (⟨.disk (.read (s.store.treePath i)), .ok (Bytes.ofString tree.encode)⟩ :: u) q) ∧
      (∀ after q before, p.log = after ++ .sent (some n₂) q :: before →
        trace n₂ before = [] ∧ q = .disk (.read (s.store.treePath i)) ∨
        ∃ u, trace n₂ before =
            ⟨.disk (.read (s.store.treePath i)), .ok (Bytes.ofString tree.encode)⟩ :: u ∧
          Restart.Attests s i tree q ∧
          (j₁.execute s).run.Asks (trace n₁ (Restart.placed s i n₁ :: earlier) ++ u) q) ∧
      ∀ cid, (j₂.execute s).run.Asks (resuming s i tree cid)
        (.submit (.submitRewardSnapshot (tree.submission cid)) (s.options 0)) := by
  have hsound := Process.sound_of_reachable hp
  have hbegun₁ : .started n₁ (work s j₁) ∈ p.log := by
    rw [hlog]
    exact List.mem_append_right _ (List.mem_cons_of_mem _ hstart₁)
  have hbegun₂ : .started n₂ (work s j₂) ∈ p.log := by
    rw [hlog]
    exact List.mem_append_left _ hstart₂
  -- the tree that was stored is that of the reply, but for the identifier of the performance file
  obtain ⟨t, hafter, hindex, ⟨r, cid, ⟨request, hgiven⟩, hmade⟩, hwritten⟩ :=
    Restart.stored_tree hd hp hlog hstart₁
  have hpassed : t.header.intervalsPassed = k := by
    rw [hmade]
    exact hreply request r hgiven
  have hasks₁ : (j₁.execute s).run.Asks (trace n₁ earlier)
      (.disk (.rename (Store.temporaryPath (s.store.treePath i)) (s.store.treePath i))) :=
    hsound.asks_of_heard hlog hbegun₁
  subst hpassed
  have hsame : ∀ u q, (j₁.execute s).run.Asks (trace n₁ (Restart.placed s i n₁ :: earlier) ++ u) q ↔
      (j₂.execute s).run.Asks (⟨.disk (.read (s.store.treePath i)), .ok (treeBytes t)⟩ :: u) q := by
    intro u q
    rw [Restart.asks_of_placed hj₁.isMember hindex hasks₁ hafter, asks_of_found hj₂]
    exact Restart.admits_attesting (hj₁.interval.trans hj₂.interval.symm) u q
  refine ⟨t, hwritten, Restart.read_of_placed hd hr hg hp hlog hstart₁ hafter rfl hcalm, hsame, ?_,
    asks_of_resuming hj₂⟩
  intro after q before hsent
  have hasks : (j₂.execute s).run.Asks (trace n₂ before) q := hsound.asks_of_sent hsent hbegun₂
  -- the first thing that an execution asks is the file
  have hadmits := (asks_iff_admits j₂ _ _).mp hasks
  cases htrace : trace n₂ before with
  | nil =>
    rw [htrace] at hadmits
    refine .inl ⟨rfl, ?_⟩
    have hq := Option.some.inj hadmits
    rw [hj₂.interval] at hq
    exact hq.symm
  | cons e u =>
    obtain ⟨q', r⟩ := e
    have hheard : .heard (some n₂) q' r ∈ before := by
      apply mem_of_mem_trace (x := ⟨q', r⟩)
      rw [htrace]
      exact List.mem_cons_self
    have hheard' : .heard (some n₂) q' r ∈ p.log := by
      rw [hsent]
      exact List.mem_append_right _ (List.mem_cons_of_mem _ hheard)
    rw [htrace] at hadmits hasks
    have hq := Option.some.inj hadmits.1
    rw [hj₂.interval] at hq
    subst hq
    have hanswer : r = .ok (treeBytes t) :=
      Restart.answer_of_read hd hr hg hp hlog hstart₁ hafter rfl hcalm hstart₂ hheard'
    subst hanswer
    have hattests := Restart.attests_of_admits hj₂.interval .checking
      ((asks_of_found hj₂ u q).mp hasks)
    exact .inr ⟨u, rfl, hattests, (hsame u q).mpr hasks⟩

theorem restart_transparent_sample : ∃ p earlier later,
    Process.Reachable Sample.world (Trigger Sample.settings) ⟨Sample.disk, []⟩ p ∧
    p.log = later ++ Restart.placed Sample.settings 5 0 :: earlier ∧
    .started 0 (work Sample.settings Sample.job) ∈ earlier ∧
    .started 1 (work Sample.settings Sample.job) ∈ later ∧
    ∃ tree : RewardsTree,
      p.engine.world.disk.read (Sample.settings.store.treePath 5) = .ok (Bytes.ofString tree.encode) ∧
      ∀ cid, (Sample.job.execute Sample.settings).run.Asks (resuming Sample.settings 5 tree cid)
        (.submit (.submitRewardSnapshot (tree.submission cid)) (Sample.settings.options 0)) := by
  obtain ⟨p, hp, hlog⟩ := Sample.resumes
  obtain ⟨earlier, hstart₁, hstored⟩ :=
    Scene.storedLog_eq Sample.settings Sample.job Sample.asked Sample.reply "bafybeigd"
  rw [Sample.storedLog, hstored] at hlog
  have hcovers : Sample.job.Covers 5 1 := ⟨rfl, rfl, rfl⟩
  have hreply : ∀ request reply, .heard (some 0) (.generate request) (.ok reply) ∈ earlier →
      reply.tree.header.intervalsPassed = 1 := by
    intro request reply hheard
    have hmem : .heard (some 0) (.generate request) (.ok reply) ∈ p.log := by
      rw [hlog]
      exact List.mem_append_right _ (List.mem_cons_of_mem _ hheard)
    obtain ⟨p₀, st', _, ha⟩ := hp.answered hmem
    rw [(Sample.eq_of_generates ha).1]
    rfl
  have hcalm : Restart.Calm Sample.settings 5 1 Sample.laterLog := by
    intro n j hj _
    have hsame := congrArg Background.work (Scene.started_laterLog hj)
    exact congrArg Generation.Request.intervalsPassed (SnapshotRequest.request_of_execute hsame)
  have hstart₂ : .started 1 (work Sample.settings Sample.job) ∈ Sample.laterLog :=
    List.mem_append_right _ List.mem_cons_self
  obtain ⟨tree, _, hread, _, _, hsubmits⟩ := restart_transparent Scene.usesDisk Scene.readsDisk
    Sample.generatedBy hp hlog hstart₁ hcovers hreply hcalm hstart₂ hcovers
  exact ⟨p, earlier, _, hp, hlog, hstart₁, hstart₂, tree, hread, hsubmits⟩

end OracleDuty
