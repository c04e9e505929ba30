import OracleDuty.Proofs.Disk.Creating
import OracleDuty.Proofs.Duty.Round
import OracleDuty.Proofs.Generation
import OracleDuty.Proofs.Store
/-!
What executions do to the files of the store, in a world that has a disk and a service that generates trees.

Main statements: `UsesDisk.does` says what the disk can become by an act of an execution, and
`Phase.Does.read` which files are left by it; `GeneratedBy.index_eq`.
-/
namespace OracleDuty

open Duty

variable {σ : Type}

/-- The world has a disk that nobody else uses. A request that succeeds is carried out; one that fails, or is
cut short while it is under way, leaves the disk as such a request can. -/
structure UsesDisk (w : World σ Request Answer) (disk : σ → Disk) : Prop where
  aside {st st' : σ} {act : Act Request Answer} : w.Moves st act st' →
    act.About (fun q => ∀ r, q ≠ .disk r) → disk st' = disk st
  leaves {st st' : σ} {act : Act Request Answer} {r : Disk.Request} : w.Moves st act st' →
    act.About (· = .disk r) → (disk st).Leaves r (disk st')
  carriesOut {st st' : σ} {r : Disk.Request} {x : r.Result} :
    w.answer (.disk r) st = (.answer (.ok x), st') → (disk st).perform r = (.ok x, disk st')

/-- The world reads its disk without fail. -/
def ReadsDisk (w : World σ Request Answer) (disk : σ → Disk) : Prop :=
  ∀ {st st' : σ} {path : Path} {r : Except Disk.Fault Bytes},
    w.answer (.disk (.read path)) st = (.answer r, st') → r = (disk st).read path

/-- The replies of the world about trees are those of a service. -/
def GeneratedBy (service : Generation.Service) (w : World σ Request Answer) : Prop :=
  ∀ {st st' : σ} {request : Generation.Request} {reply : Generation.Reply},
    w.answer (.generate request) st = (.answer (.ok reply), st') →
      ∃ t, (service.generate request).run.Ends t (.ok reply)

theorem GeneratedBy.index_eq {service : Generation.Service} {w : World σ Request Answer}
    (h : GeneratedBy service w) {st st' : σ} {request : Generation.Request} {reply : Generation.Reply}
    (ha : w.answer (.generate request) st = (.answer (.ok reply), st')) :
    reply.tree.header.index = request.index := by
  obtain ⟨t, ht⟩ := h ha
  exact Generation.Service.index_of_ends ht

namespace Duty.SubmitRewards

variable {s : Settings} {j : Job} {m : Phase} {d d' : Disk}

/-- What becomes of a disk by an act of an execution. Only files that are being written are written to, and
only into their own places is anything moved. -/
inductive Phase.Does (s : Settings) (j : Job) : Phase → Disk → Disk → Prop where
  | nothing (m : Phase) (d : Disk) : Does s j m d d
  | creates {e : Errand} {d d' : Disk} (h : Disk.Creates s.store.directory d d') :
    Does s j (.creating e) d d'
  | writes {e : Errand} {d d' : Disk} {kept : Bytes}
    (h : d.write (Store.temporaryPath (e.path s j)) kept = .ok d') : Does s j (.writing e) d d'
  | places {e : Errand} {d d' : Disk}
    (h : d.rename (Store.temporaryPath (e.path s j)) (e.path s j) = .ok d') :
    Does s j (.placing e) d d'

/-- However a request to the disk goes, it does what belongs to its phase. -/
theorem Phase.does_of_leaves {r : Disk.Request} (hr : m.request? s j = some (.disk r))
    (hl : d.Leaves r d') : m.Does s j d d' := by
  cases m with
  | reading =>
    cases hr
    rw [hl.read]
    exact .nothing _ _
  | creating e =>
    cases hr
    exact .creates hl.createDirectories
  | writing e =>
    cases hr
    rcases hl.write with rfl | ⟨kept, h⟩
    · exact .nothing _ _
    · exact .writes h
  | placing e =>
    cases hr
    rcases hl.rename with rfl | h
    · exact .nothing _ _
    · exact .places h
  | _ => nomatch hr

/-- A file is left by an act, unless it is the one that is put in its place or one that is being written. -/
theorem Phase.Does.read (h : Phase.Does s j m d d') {p : Path} {content : Bytes}
    (htemporary : ∀ q, (Store.temporaryPath q).Apart p)
    (hplace : ∀ e, m = .placing e → (e.path s j).Apart p) (hr : d.read p = .ok content) :
    d'.read p = .ok content := by
  cases h with
  | nothing => exact hr
  | creates h =>
    obtain ⟨parents, _, rfl⟩ := h
    exact (Disk.createDirectories_grows _ _ d).read hr
  | writes h => exact (Disk.read_write_of_apart (htemporary _) h content).mpr hr
  | places h => exact (Disk.read_rename_of_apart (htemporary _) (hplace _ rfl) h content).mpr hr

theorem Errand.owns_path (e : Errand) : s.store.Owns (e.path s j) := by
  cases e with
  | performance r => exact s.store.owns_performancePath _
  | packedPerformance r => exact (s.store.owns_performancePath _).compressed
  | tree t => exact s.store.owns_treePath _
  | packedTree t => exact (s.store.owns_treePath _).compressed

theorem Errand.path_apart_temporary (e : Errand) (q : Path) :
    (e.path s j).Apart (Store.temporaryPath q) := by
  cases e with
  | performance r => exact (Store.temporary_apart_performance q).symm
  | packedPerformance r => exact (Store.temporary_apart_compressed q _).symm
  | tree t => exact (Store.apart_temporary q).symm
  | packedTree t => exact (Store.temporary_apart_compressed q _).symm

/-- Only a tree is put where a tree is kept, and only one of that interval. -/
theorem Errand.eq_tree_of_path {e : Errand} {i : UInt64} (h : e.path s j = s.store.treePath i) :
    ∃ t, e = .tree t ∧ t.header.index = i := by
  cases e with
  | performance r => exact absurd h Store.performancePath_ne_treePath
  | packedPerformance r => exact absurd h (Store.compressedPath_ne_treePath _)
  | tree t => exact ⟨t, rfl, Store.treePath_inj h⟩
  | packedTree t => exact absurd h (Store.compressedPath_ne_treePath _)

end Duty.SubmitRewards

open Duty.SubmitRewards

variable {w : World σ Request Answer} {disk : σ → Disk} {s : Settings}

theorem about_request {m : Phase} {j : Job} {act : Act Request Answer}
    (ha : act.About ((script s j).asks m)) {q : Request} (hq : m.request? s j = some q) :
    act.About (· = q) :=
  ha.mono fun _ h => Option.some.inj (h.symm.trans hq)

/-- What an execution of the rewards task does to the disk. -/
theorem UsesDisk.does (hd : UsesDisk w disk) {m : Phase} {j : Job} {act : Act Request Answer}
    (ha : act.About ((script s j).asks m)) {st st' : σ} (hm : w.Moves st act st') :
    m.Does s j (disk st) (disk st') := by
  by_cases hr : ∃ r, m.request? s j = some (.disk r)
  · obtain ⟨r, hr⟩ := hr
    exact Phase.does_of_leaves hr (hd.leaves hm (about_request ha hr))
  · have hother : act.About fun q => ∀ r, q ≠ .disk r := by
      apply ha.mono
      rintro q hq r rfl
      exact hr ⟨r, hq⟩
    rw [hd.aside hm hother]
    exact .nothing _ _

/-- Reporting prices leaves the disk as it is. -/
theorem UsesDisk.prices (hd : UsesDisk w disk) {m : SubmitPrices.Phase} {j : SubmitPrices.Job}
    {act : Act Request Answer} (ha : act.About ((SubmitPrices.script s j).asks m)) {st st' : σ}
    (hm : w.Moves st act st') : disk st' = disk st := by
  refine hd.aside hm (ha.mono ?_)
  rintro q hq r rfl
  cases m with
  | observing =>
    obtain ⟨pool, _, hpool⟩ := Option.map_eq_some_iff.mp hq
    cases hpool
  | _ => nomatch hq

theorem UsesDisk.mild (hd : UsesDisk w disk) {act : Act Request Answer} (ha : act.About Mild)
    {st st' : σ} (hm : w.Moves st act st') : disk st' = disk st := by
  refine hd.aside hm (ha.mono ?_)
  rintro q hq r rfl
  exact hq

/-! ### Files that are being written -/

def Written (s : Settings) (j : Job) (d : Disk) : Phase → Prop
  | .placing e => ∀ content, d.read (Store.temporaryPath (e.path s j)) = .ok content → content = e.content
  | _ => True

variable {m : Phase} {j : Job}

/-- What is about to be moved into its place was written by the step before, whatever other files came to be. -/
theorem Written.does {d d' : Disk} (h : Written s j d m) (hd : m.Does s j d d') : Written s j d' m := by
  cases m with
  | placing e =>
    intro content hr
    cases hd with
    | nothing => exact h content hr
    | places hmoved =>
      rw [Disk.read_rename_source (e.path_apart_temporary _) hmoved] at hr
      cases hr
  | _ => trivial

/-- An answer that a request succeeded tells that it was carried out. -/
theorem UsesDisk.written (hd : UsesDisk w disk) {st st' : σ} {q : Request} {a : Answer q}
    (hq : (script s j).asks m q) (ha : w.answer q st = (.answer a, st')) :
    Written s j (disk st') ((script s j).next m q a) := by
  have hgo := goes_next hq a
  generalize (script s j).next m q a = m' at hgo
  cases hgo with
  | written e =>
    intro content hr
    have hw := Disk.change_ok (hd.carriesOut ha)
    exact (Except.ok.inj ((Disk.read_write hw).symm.trans hr)).symm
  | found => exact attesting_cases (motive := Written s j _) trivial trivial
  | placed e =>
    cases e with
    | performance r => exact stored_performance_cases (motive := Written s j _) trivial trivial
    | tree t => exact attesting_cases (motive := Written s j _) trivial trivial
    | _ => trivial
  | _ => trivial

/-- What was moved into its place is there, and is what was written. -/
theorem UsesDisk.placed (hd : UsesDisk w disk) {st st' : σ} {e : Errand}
    (h : Written s j (disk st) (.placing e))
    (ha : w.answer (.disk (.rename (Store.temporaryPath (e.path s j)) (e.path s j))) st =
      (.answer (.ok ()), st')) :
    Phase.Does s j (.placing e) (disk st) (disk st') ∧ (disk st').read (e.path s j) = .ok e.content := by
  have hr := Disk.change_ok (hd.carriesOut ha)
  -- what was moved was read where it was written
  obtain ⟨old, _, content, hl, _, hold, _⟩ := Disk.rename_ok.mp hr
  have hc := Disk.read_ok.mpr ⟨old, hl, hold⟩
  refine ⟨.places hr, ?_⟩
  rw [← h content hc]
  exact (Disk.read_rename hr content).mpr hc

/-! ### Facts about files -/

structure Upholds (s : Settings) (w : World σ Request Answer) (disk : σ → Disk)
    (I : List (Event Request Answer) → Disk → Prop)
    (K : List (Event Request Answer) → Disk → Nat → Job → Phase → Prop) : Prop where
  fact_mono {log log' d} : I log d → (∀ e ∈ log, e ∈ log') → I log' d
  mono {log log' d n j m} : K log d n j m → (∀ e ∈ log, e ∈ log') → K log' d n j m
  start {log d n j} : .started n ⟨SubmitRewards.name, j.execute s⟩ ∈ log → I log d → K log d n j .reading
  does {log d d' n j m} : m.Does s j d d' → I log d → K log d n j m → I log d' ∧ K log d' n j m
  hear {log st st' n j m q a} : (script s j).asks m q → w.answer q st = (.answer a, st') →
    I log (disk st) → K log (disk st) n j m →
      K (.heard (some n) q a :: log) (disk st') n j ((script s j).next m q a)

def Rests (K : List (Event Request Answer) → Disk → Nat → Job → Phase → Prop)
    (log : List (Event Request Answer)) (d : Disk) (x : Actor Role) : Prop :=
  x.lane = x.stage.lane ∧ ∀ j m, x.stage = .rewards j m → K log d x.number j m

/-- Facts that executions of the rewards task uphold are kept by whatever a process does. -/
theorem Upholds.keeps {I : List (Event Request Answer) → Disk → Prop}
    {K : List (Event Request Answer) → Disk → Nat → Job → Phase → Prop} (h : Upholds s w disk I K)
    (hd : UsesDisk w disk) :
    (discipline s).Keeps w (fun log st => I log (disk st)) fun log st x => Rests K log (disk st) x := by
  have hmem : ∀ (act : Act Request Answer) (number : Option Nat) (log : List (Event Request Answer)),
      ∀ e ∈ log, e ∈ act.events number ++ log := fun _ _ _ _ he => List.mem_append_right _ he
  have hmono : ∀ {log log' d x}, Rests K log d x → (∀ e ∈ log, e ∈ log') → Rests K log' d x :=
    fun hx hl => ⟨hx.1, fun j m hm => h.mono (hx.2 j m hm) hl⟩
  constructor
  case start =>
    intro log st n b m hb hI
    have hI' := h.fact_mono hI fun e he => List.mem_cons_of_mem (.started n b) he
    refine ⟨hI', hb.lane, ?_⟩
    rintro j m rfl
    cases hb
    exact h.start List.mem_cons_self hI'
  case start_other =>
    intro log st n b y hy
    exact hmono hy fun e he => List.mem_cons_of_mem _ he
  case lead =>
    intro log st st' act ha hm hI
    rw [hd.mild ha hm]
    exact h.fact_mono hI (hmem act _ _)
  case lead_other =>
    intro log st st' act y ha hm hI hy
    rw [hd.mild ha hm]
    exact hmono hy (hmem act _ _)
  case work =>
    intro log st st' act x ha hm hI hx
    obtain ⟨n, l, ⟨j, m⟩ | ⟨j, m⟩⟩ := x
    · obtain ⟨hI', hK⟩ := h.does (hd.does (m := m) (j := j) ha hm) hI (hx.2 j m rfl)
      refine ⟨h.fact_mono hI' (hmem act _ _), fun hnp => ⟨hx.1.trans (lane_step s _ act).symm, ?_⟩⟩
      rintro j' m' hstage
      cases hm with
      | write line =>
        cases hstage
        exact hK
      | send q =>
        cases hstage
        exact h.mono hK (hmem (.send q) _ _)
      | hear hans =>
        cases hstage
        exact h.hear ha hans hI (hx.2 j m rfl)
      | panic => exact absurd rfl (hnp _ _)
    · -- an execution of the prices task leaves the disk alone
      rw [hd.prices (j := j) (m := m) ha hm]
      refine ⟨h.fact_mono hI (hmem act _ _), fun _ => ⟨hx.1.trans (lane_step s _ act).symm, ?_⟩⟩
      intro j' m' hstage
      cases act <;> cases hstage
  case work_other =>
    intro log st st' act x y ha hm hI hx hne hy
    obtain ⟨n, l, ⟨j, m⟩ | ⟨j, m⟩⟩ := x
    · -- there is no other execution in the lane of the rewards task
      refine ⟨hy.1, ?_⟩
      intro j' m' hstage
      have hl : y.lane = l := by
        rw [hy.1, hstage]
        exact hx.1.symm
      exact absurd hl hne
    · rw [hd.prices (j := j) (m := m) ha hm]
      exact hmono hy (hmem act _ _)

end OracleDuty
