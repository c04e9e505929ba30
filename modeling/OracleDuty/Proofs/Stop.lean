import OracleDuty.Proofs.Batches
import OracleDuty.Proofs.Clients
import OracleDuty.Proofs.Unhindered
import OracleDuty.Service
/-!
What the end of the service waits for: the tick of the controller in hand, and nothing else. An execution in the
background is left where it stands.

Main statement: `Service.stop_heeds_controller`. In `Service.Interrupted` a tree is stored and its submission does
not come about, although the answers to it were on their way.
-/
namespace OracleDuty

open Program

/-- A sequence that ends has come to the end of its first part. -/
theorem run_bind_of_some {σ Q : Type} {A : Q → Type} {α β : Type} {w : World σ Q A} {p : Program Q A α}
    {f : α → Program Q A β} {st : σ} {b : β} (h : ((p.bind f).run w st).1 = some b) :
    ∃ a, (p.run w st).1 = some a ∧ (p.bind f).run w st = (f a).run w (p.run w st).2 := by
  induction p generalizing st with
  | done a => exact ⟨a, rfl, rfl⟩
  | note line p ih => exact ih h
  | ask q next ih =>
    cases haccept : w.accept q st with
    | mk now taken =>
      cases now with
      | false => simp [Program.run, Program.bind, advance, haccept, Stage.result?] at h
      | true =>
        cases hanswer : w.answer q taken with
        | mk reply after =>
          cases reply with
          | panic reason => simp [Program.run, Program.bind, advance, haccept, hanswer, Stage.result?] at h
          | answer a =>
            have hgo : ∀ {γ : Type} (g : A q → Program Q A γ), (ask q g).run w st = (g a).run w after := by
              intro γ g
              simp only [Program.run, advance, haccept, hanswer]
            rw [Program.bind, hgo] at h ⊢
            rw [hgo]
            exact ih a h

namespace Service

variable {σ α : Type} {w : World σ Wire.Request Wire.Answer} {s : Signal} {R : Running σ}

/-! ### Executions are of no consequence to the end -/

/-- The same, but for the executions under way. -/
def Running.having (R : Running σ) (lanes : Lanes) (executions : List (Execution Wire.Request Wire.Answer))
    (started : Nat) : Running σ := { R with engine := { R.engine with lanes, executions, started } }

def Running.reaching (R : Running σ) (st : σ) : Running σ := { R with engine := { R.engine with world := st } }

def Waits (q : Request) : Prop := ∀ r, q ≠ .engage r

theorem waits_wire (q : Wire.Request) : Waits (.wire q) := by
  intro r h
  cases h

theorem waits_stop (seconds : UInt64) : Waits (.stop seconds) := by
  intro r h
  cases h

theorem waits_signal : Waits .signal := by
  intro r h
  cases h

variable {lanes : Lanes} {executions : List (Execution Wire.Request Wire.Answer)} {started : Nat}

theorem stop_having : (R.having lanes executions started).stop w =
    ((R.stop w).1, (R.stop w).2.having lanes executions started) := by
  obtain ⟨engine, tick⟩ := R
  cases tick <;> rfl

/-- A program that does not set the controller to work goes on in the same way whatever executions are under
way, and does nothing to them. -/
theorem advance_having {p : Program Request Answer α} {post : Unit → α → Prop}
    (h : p.Follows (Script.only Waits) () post) (R : Running σ) :
    p.advance (world w s) (R.having lanes executions started) =
      ((p.advance (world w s) R).1, (p.advance (world w s) R).2.having lanes executions started) := by
  -- by induction on the program, as the runs differ in what the world holds when they go on
  induction p generalizing R with
  | done a => rfl
  | note line p ih => exact ih h ((world w s).write line R)
  | ask q next ih =>
    cases q with
    | engage r => exact absurd rfl (h.1 r)
    | signal => exact ih s (h.2 s) R
    | stop seconds =>
      have hstop : ∀ R : Running σ, (ask (Request.stop seconds) next).advance (world w s) R =
          (next (R.stop w).1).advance (world w s) (R.stop w).2 := fun _ => rfl
      rw [hstop, hstop, stop_having]
      exact ih _ (h.2 _) _
    | wire q =>
      have hwire : ∀ R : Running σ, (ask (Request.wire q) next).advance (world w s) R =
          match (w.accept q R.engine.world).1, w.answer q (w.accept q R.engine.world).2 with
          | false, _ => (.held (.wire q) next, R.reaching (w.accept q R.engine.world).2)
          | true, (.panic reason, after) => (.panicked reason, R.reaching after)
          | true, (.answer a, after) => (next a).advance (world w s) (R.reaching after) := by
        intro R
        cases haccept : w.accept q R.engine.world with
        | mk now taken =>
          cases now <;> cases hanswer : w.answer q taken with
          | mk reply after => cases reply <;> simp [advance, world, haccept, hanswer, Running.reaching]
      have hworld : (R.having lanes executions started).engine.world = R.engine.world := rfl
      rw [hwire, hwire, hworld]
      split
      · rfl
      · rfl
      · rename_i a after _ _
        exact ih a (h.2 a) (R.reaching after)

/-! ### The course of a shutdown -/

/-- What a service does once its controller is at work: it waits for a signal, and then for the controller. -/
def Ready.wait (r : Ready) : Action Bool := do
  ExceptT.lift Shutdown.listen
  let s ← ExceptT.lift (Program.request (A := Answer) .signal)
  ExceptT.lift (Shutdown.receive s)
  finish r s

def Ready.work (r : Ready) : Action Bool := do
  ExceptT.lift (Program.request (A := Answer) (.engage r))
  r.wait

theorem run_eq (o : CommandLine.Options) : run o = prepare o >>= Ready.work := rfl

theorem run_work (r : Ready) (w : World σ Wire.Request Wire.Answer) (s : Signal) (R : Running σ) :
    r.work.run.run (world w s) R = r.wait.run.run (world w s) (R.engage w r) := rfl

theorem ofWire_follows (p : Wire.Course α) :
    (ofWire p).Follows (Script.only Waits) () fun _ _ => True := by
  induction p with
  | done a => trivial
  | note line p ih => exact ih
  | ask q next ih => exact ⟨waits_wire q, ih⟩

theorem receive_follows (s : Signal) :
    (Shutdown.receive s : Program Request Answer Unit).Follows (Script.only Waits) () fun _ _ => True := by
  cases s <;> trivial

/-- The conclusion of a shutdown asks for nothing but to wait. -/
theorem conclude_follows (received : Option Signal) (seconds : UInt64) (ending : Shutdown.Ending) :
    (Shutdown.conclude received seconds ending : Program Request Answer _).Follows (Script.only Waits) ()
      fun _ _ => True := by
  cases ending with
  | completed => trivial
  | failed message => trivial
  | unfinished =>
    unfold Shutdown.conclude
    by_cases hquit : received = some .quit
    · rw [if_pos hquit]
      trivial
    · rw [if_neg hquit]
      trivial

/-- A service that is shutting down does not set its controller to work again. -/
theorem finish_guides (r : Ready) (received : Signal) :
    (Script.only Waits).Guides () (finish r received) (fun _ => True) fun _ _ => True := by
  refine guides_bind.mpr (guides_lift.mpr ?_)
  refine guides_bind.mpr (guides_lift.mpr ⟨waits_stop _, fun ending => ?_⟩)
  refine guides_bind.mpr (guides_lift.mpr ((conclude_follows _ _ _).mono fun _ verdict _ => ?_))
  cases verdict with
  | abandoned => trivial
  | failed message => trivial
  | done =>
    refine guides_bind.mpr (guides_lift.mpr ((ofWire_follows _).mono fun _ result _ => ?_))
    obtain ⟨stopped, exporter⟩ := result
    refine guides_bind.mpr (guides_adapt.mpr ?_)
    cases stopped with
    | error e => trivial
    | ok u => trivial

theorem wait_follows (r : Ready) : r.wait.run.Follows (Script.only Waits) () fun _ _ => True := by
  have hguides : (Script.only Waits).Guides () r.wait (fun _ => True) fun _ _ => True := by
    refine guides_bind.mpr (guides_lift.mpr ?_)
    refine guides_bind.mpr (guides_lift.mpr ⟨waits_signal, fun s => ?_⟩)
    refine guides_bind.mpr (guides_lift.mpr ((receive_follows s).mono fun _ _ _ => ?_))
    exact finish_guides r s
  exact Follows.mono hguides fun _ _ _ => trivial

theorem wait_having (r : Ready) (w : World σ Wire.Request Wire.Answer) (s : Signal) (R : Running σ)
    (lanes : Lanes) (executions : List (Execution Wire.Request Wire.Answer)) (started : Nat) :
    r.wait.run.run (world w s) (R.having lanes executions started) =
      ((r.wait.run.run (world w s) R).1,
        (r.wait.run.run (world w s) R).2.having lanes executions started) := by
  rw [Program.run, advance_having (wait_follows r)]
  rfl

theorem wait_leaves (r : Ready) (w : World σ Wire.Request Wire.Answer) (s : Signal) (R : Running σ) :
    (r.wait.run.run (world w s) R).2.engine.executions = R.engine.executions ∧
      (r.wait.run.run (world w s) R).2.engine.lanes = R.engine.lanes := by
  have hown : R.having R.engine.lanes R.engine.executions R.engine.started = R := rfl
  have hleft := wait_having r w s R R.engine.lanes R.engine.executions R.engine.started
  rw [hown] at hleft
  rw [hleft]
  exact ⟨rfl, rfl⟩

theorem finished_of_wait {r : Ready} (h : (r.wait.run.run (world w s) R).1 = some (.ok true)) :
    ∃ c, R.tick = .finished c := by
  obtain ⟨engine, tick⟩ := R
  cases tick with
  | finished c => exact ⟨c, rfl⟩
  | panicked reason => cases s <;> nomatch h
  | held q next => cases s <;> nomatch h

theorem wait_of_finished {r : Ready} (hr : r.exporter = .absent) {c : Controller}
    (hc : R.tick = .finished c) : (r.wait.run.run (world w s) R).1 = some (.ok true) := by
  obtain ⟨engine, tick⟩ := R
  obtain ⟨settings, clients, exporter, poll, shutdown⟩ := r
  cases hr
  cases hc
  cases s <;> rfl

/-- Of a run that comes to a good end, what was under way when the tick had ended is left. -/
theorem left_of_run {o : CommandLine.Options} (h : ((run o).run.run (world w s) R).1 = some (.ok true)) :
    ∃ r c begun, ((prepare o).run.run (world w s) R).1 = some (.ok r) ∧
      begun = ((prepare o).run.run (world w s) R).2.engage w r ∧ begun.tick = .finished c ∧
      ((run o).run.run (world w s) R).2.engine.executions = begun.engine.executions ∧
      ((run o).run.run (world w s) R).2.engine.lanes = begun.engine.lanes := by
  rw [run_eq, run_bind] at h ⊢
  obtain ⟨result, hresult, hrest⟩ := run_bind_of_some h
  rw [hrest] at h ⊢
  cases result with
  | error e => nomatch h
  | ok r =>
    dsimp only at h ⊢
    rw [run_work] at h ⊢
    obtain ⟨c, hc⟩ := finished_of_wait h
    exact ⟨r, c, _, hresult, rfl, hc, wait_leaves r w s _⟩

/-- The service stops well only once the tick of its controller has ended, and then it does, whatever executions
are under way; these are left where they stand. -/
theorem stop_heeds_controller (w : World σ Wire.Request Wire.Answer) (s : Signal) :
    (∀ o R, ((run o).run.run (world w s) R).1 = some (.ok true) →
      ∃ r c begun, ((prepare o).run.run (world w s) R).1 = some (.ok r) ∧
        begun = ((prepare o).run.run (world w s) R).2.engage w r ∧ begun.tick = .finished c ∧
        ((run o).run.run (world w s) R).2.engine.executions = begun.engine.executions ∧
        ((run o).run.run (world w s) R).2.engine.lanes = begun.engine.lanes) ∧
    (∀ (r : Ready) R, r.exporter = .absent →
      ((r.wait.run.run (world w s) R).1 = some (.ok true) ↔ ∃ c, R.tick = .finished c)) ∧
    ∀ (r : Ready) R lanes executions started,
      r.wait.run.run (world w s) (R.having lanes executions started) =
        ((r.wait.run.run (world w s) R).1,
          (r.wait.run.run (world w s) R).2.having lanes executions started) := by
  refine ⟨fun o R h => left_of_run h, ?_, fun r R => wait_having r w s R⟩
  intro r R hr
  constructor
  · exact finished_of_wait
  · rintro ⟨c, hc⟩
    exact wait_of_finished hr hc

end Service

/-! ### A submission that does not come about -/

/-- A tick that starts work at its end leaves the work as far as its answers reach. -/
theorem Service.engage_batches {r : Ready} {c : Controller} {span : Log.SpanFields}
    {b : Background Wire.Request Wire.Answer} {t u v : List (Exchange Wire.Request Wire.Answer)}
    (h : (Controller.fresh.tick r.load r.tasks).Ends (t.map Process.asked ++ [⟨.start span b, true⟩]) c) :
    (Running.idle [t ++ u, v]).engage World.batches r =
      ⟨((Engine.idle [u, v]).start span b).2.proceedAll World.batches fun _ => false, .finished c⟩ := by
  have htick : (Controller.fresh.tick r.load r.tasks).advance (Engine.foreground World.batches)
      (Engine.idle [t ++ u, v]) = (.finished c, ((Engine.idle [u, v]).start span b).2) :=
    World.lead_batches_start h
  have hengage : (Running.idle [t ++ u, v]).engage World.batches r =
      ⟨((Controller.fresh.tick r.load r.tasks).advance (Engine.foreground World.batches)
          (Engine.idle [t ++ u, v])).2.proceedAll World.batches fun _ => false,
        ((Controller.fresh.tick r.load r.tasks).advance (Engine.foreground World.batches)
          (Engine.idle [t ++ u, v])).1⟩ := rfl
  rw [hengage, htick]

namespace Service.Interrupted

open Duty.SubmitRewards Execution

def locator (port : Nat) (path : List String) : Url :=
  ⟨"http", some ⟨none, "[::1]", some port⟩, .segments path, none, none⟩

def settings : Settings := { Sample.settings with node := 1, fees := ⟨some 100, some 2⟩ }

def node : Node := ⟨locator 8545 [""], 1, 8⟩

def clients : Clients where
  beacon := ⟨locator 5052 [""]⟩
  execution := node
  generator := ⟨locator 8080 [""]⟩
  publisher := ⟨locator 9000 [""], some "token"⟩

def ready : Ready := ⟨settings, clients, .absent, 12, 60⟩

def zero : Except String Json := .ok (.string ("0x" ++ String.ofList (List.replicate 64 '0')))

def one : Except String Json := .ok (.string ("0x" ++ String.ofList (List.replicate 63 '0') ++ "1"))

/-! The round. All numbers are one, and the second epoch is final. -/

def answers (document : String) : (q : Wire.Request) → Wire.Answer q
  | .http _ => .ok ⟨200, Bytes.ofString document⟩
  | .rpc _ .blockNumber => .ok (.string "0x1")
  | .rpc _ _ => one
  | .keptTiming => some ⟨1, 1, 1⟩
  | .keepTiming timing => timing
  | .disk _ => .error .notFound
  | .flushMetrics _ => .ok ()

def headDocument : String :=
  "\x7b\"data\":\x7b\"header\":\x7b\"message\":\x7b\"slot\":\"1\"\x7d\x7d,\"finalized\":\x7b\"epoch\":\"2\"\x7d\x7d\x7d"

def blockDocument : String :=
  "\x7b\"data\":\x7b\"message\":\x7b\"slot\":\"1\",\"body\":[\x7b\"block_number\":\"1\"\x7d]\x7d\x7d\x7d"

def state : NetworkState := ⟨1, 1, ⟨1, 1, 1⟩, ⟨1, 1, 1⟩, ⟨true, 1, 1⟩, [⟨1, 1⟩]⟩

def job : Job := ⟨true, state.interval, 1, ⟨2, ⟨1, 1, 2⟩, 1, 1⟩⟩

def round : List (Exchange Duty.Request Duty.Answer) :=
  [⟨.head, .ok ⟨1, 1, 2⟩⟩, ⟨.block 1, .ok (some ⟨1, 1⟩)⟩]

def looked : Exchange Duty.Request Duty.Answer → List (Exchange Wire.Request Wire.Answer)
  | ⟨.head, _⟩ => ((clients.serve .head).outcome (answers headDocument)).1
  | ⟨.block slot, _⟩ => ((clients.serve (.block slot)).outcome (answers blockDocument)).1
  | _ => []

def ticked : List (Exchange Wire.Request Wire.Answer) :=
  (ready.load.run.outcome (answers headDocument)).1 ++ round.flatMap looked

def background : Background Wire.Request Wire.Answer := Background.serve clients.serve (work settings job)

theorem ends_round : (Duty.SubmitRewards.run settings state).run.Ends round
    (.ok (some (work settings job))) := by
  apply SnapshotRequest.ends_run_of_launch
  exact SnapshotRequest.ends_launch_of_due (p := ⟨1, 1, 2⟩) (.inl (by decide)) rfl (by decide) rfl rfl
    (by decide) 0 (by decide) ⟨1, 1⟩

theorem served_round : ∀ e ∈ round, (clients.serve e.request).Ends (looked e) e.answer := by
  have hhead : (clients.serve .head).Ends (looked ⟨.head, .ok ⟨1, 1, 2⟩⟩) (.ok ⟨1, 1, 2⟩) :=
    ends_of_outcome (by decide +kernel)
  have hblock : (clients.serve (.block 1)).Ends (looked ⟨.block 1, .ok (some ⟨1, 1⟩)⟩) (.ok (some ⟨1, 1⟩)) :=
    ends_of_outcome (by decide +kernel)
  simp only [round, List.forall_mem_cons]
  exact ⟨hhead, hblock, List.forall_mem_nil _⟩

/-- The tick ends with the start of the work, whatever becomes of that. -/
theorem ends_tick : (Controller.fresh.tick ready.load ready.tasks).Ends (ticked.map Process.asked ++
    [⟨.start (Controller.span Duty.SubmitRewards.name 1) background, true⟩]) ⟨some 1⟩ := by
  have hload : ready.load.run.Ends (ready.load.run.outcome (answers headDocument)).1 (.ok state) :=
    ends_of_outcome (by decide +kernel)
  have hrelay : (Duty.RelayPrices.run settings state).run.Ends [] (.ok ()) := .note (.refl _)
  have hprices : (Duty.SubmitPrices.run settings state).run.Ends [] (.ok none) := .note (.refl _)
  have htasks := Duty.round_ends hrelay hprices ends_round served_round
  have htick := tick_ends (c := .fresh) hload rfl htasks
  rw [ticked, List.map_append, List.append_assoc]
  exact htick

/-! The work. -/

def reply : Generation.Reply :=
  ⟨{ Sample.tree with header := { Sample.tree.header with index := 1 } }, Sample.reply.performance⟩

def number : Except String Json := .ok (.string "0x1")

def mined : Except String Json := .ok (.object [("status", .string "0x1")])

def published : Http.Response := ⟨200, Bytes.ofString "\x7b\"cid\":\"bafybeigd\"\x7d"⟩

def transaction (call : Call) (options : TxOptions) : Rpc.Transaction :=
  ⟨⟨1, 1, Contract.calldata call, options.value, 1⟩, 1, 1, 100, 2⟩

def wired : Exchange Duty.Request Duty.Answer → List (Exchange Wire.Request Wire.Answer)
  | ⟨.disk r, a⟩ => [⟨.disk r, a⟩]
  | ⟨.generate r, .ok reply⟩ =>
    [⟨.http (Generation.Service.message (locator 8080 ["v1", "rewards-trees"]) r),
      .ok ⟨200, Bytes.ofString reply.toJson.render⟩⟩]
  | ⟨.upload file content, _⟩ =>
    [⟨.http (Publication.message (locator 9000 ["upload"]) "token" file content), .ok published⟩]
  | ⟨.flag key _, _⟩ =>
    [⟨.rpc node.endpoint (.read 8 (Contract.Read.getBool key).calldata .latest), zero⟩]
  | ⟨.submit call options, _⟩ => [
      ⟨.rpc node.endpoint (node.lookup .rewardsPool), one⟩,
      ⟨.rpc node.endpoint (.transactionCount 1), number⟩,
      ⟨.rpc node.endpoint .chainId, number⟩,
      ⟨.rpc node.endpoint (.estimateGas (transaction call options).toDraft), number⟩,
      ⟨.rpc node.endpoint (.send (transaction call options)), one⟩,
      ⟨.rpc node.endpoint (.receipt 1), mined⟩]
  | _ => []

theorem serve_disk (r : Disk.Request) (a : Duty.Answer (.disk r)) :
    (clients.serve (.disk r)).Ends (wired ⟨.disk r, a⟩) a := .ask (.refl _)

theorem serve_generate {r : Generation.Request} (hr : r.index = 1) :
    (clients.serve (.generate r)).Ends (wired ⟨.generate r, .ok reply⟩) (.ok reply) :=
  Generation.Service.ends_generate (by rfl) (by rfl) Sample.lasting hr.symm

theorem serve_upload {file : String} (content : Bytes) (hfile : Http.isHeaderText file = true) :
    (clients.serve (.upload file content)).Ends (wired ⟨.upload file content, .ok "bafybeigd"⟩)
      (.ok "bafybeigd") := by
  have htoken : Http.isHeaderText "Bearer token" = true := by decide
  have htype : Http.isHeaderText "application/octet-stream" = true := by decide
  apply Publication.Service.ends_upload rfl (by rfl)
  · simp [Http.Request.isSendable, Publication.message, htoken, htype, hfile, locator, Url.isHttp]
  · decide +kernel

theorem serve_flag (key : Digest) :
    (clients.serve (.flag key none)).Ends (wired ⟨.flag key none, .ok false⟩) (.ok false) := by
  have hflag : answeredFlag? zero = some false := by decide +kernel
  exact Program.ends_bind.mpr ⟨.ok false, _, [], (List.append_nil _).symm, node.ends_ask hflag, .refl _⟩

/-- A submission is several requests of the node, of which the last waits for its receipt. -/
theorem serve_submit (snapshot : SnapshotSubmission) :
    (clients.serve (.submit (.submitRewardSnapshot snapshot) (settings.options 0))).Ends
      (wired ⟨.submit (.submitRewardSnapshot snapshot) (settings.options 0), .ok 1⟩) (.ok 1) := by
  have hpool : answeredAddress? one = some 1 := by decide +kernel
  have hnumber : told Rpc.uint64? number = some 1 := by decide +kernel
  have hhash : told Json.digest? one = some 1 := by decide +kernel
  have hmined : told Rpc.Receipt.ofJson? mined = some ⟨true, none⟩ := by decide +kernel
  have htransaction := node.ends_transaction (.submitRewardSnapshot snapshot) (settings.options 0) 1
    hnumber hnumber hnumber rfl rfl rfl
  have hsubmit := node.ends_submit (.submitRewardSnapshot snapshot) (node.ends_contract hpool (by decide))
    htransaction hhash hmined rfl
  exact Program.ends_bind.mpr ⟨.ok 1, _, [], (List.append_nil _).symm, hsubmit, .refl _⟩

def tree : RewardsTree := withPerformance reply.tree "bafybeigd"

def storing : List (Exchange Duty.Request Duty.Answer) :=
  building settings job reply "bafybeigd" ++
  ⟨.flag (Submission.key .rewardsSnapshot settings.node (RewardsTree.word 1) none) none, .ok false⟩ ::
  putting settings (Store.compressedPath (settings.store.treePath 1)) (Zstd.compress (treeBytes tree))

def submitting : List (Exchange Duty.Request Duty.Answer) := [
  ⟨.upload (Path.fileName (Store.compressedPath (settings.store.treePath 1))) (Zstd.compress (treeBytes tree)),
    .ok "bafybeigd"⟩,
  ⟨.submit (.submitRewardSnapshot (tree.submission "bafybeigd")) (settings.options 0), .ok 1⟩]

/-- Each request of the work is served as the exchanges say. -/
theorem served_work : ∀ e ∈ storing ++ submitting, (clients.serve e.request).Ends (wired e) e.answer := by
  have hperformance : Http.isHeaderText (Path.fileName (Store.compressedPath
      (settings.store.performancePath 1))) = true := by decide +kernel
  have htree : Http.isHeaderText (Path.fileName (Store.compressedPath
      (settings.store.treePath 1))) = true := by decide +kernel
  have hputting : ∀ path content, ∀ e ∈ putting settings path content,
      (clients.serve e.request).Ends (wired e) e.answer := by
    intro path content
    simp only [putting, List.forall_mem_cons]
    exact ⟨serve_disk _ _, serve_disk _ _, serve_disk _ _, List.forall_mem_nil _⟩
  have hbuilding : ∀ e ∈ building settings job reply "bafybeigd",
      (clients.serve e.request).Ends (wired e) e.answer := by
    simp only [building, List.forall_mem_append, List.forall_mem_cons]
    exact ⟨⟨serve_disk _ _, serve_generate rfl, List.forall_mem_nil _⟩, hputting _ _, hputting _ _,
      serve_upload _ hperformance, hputting _ _⟩
  simp only [storing, submitting, List.forall_mem_append, List.forall_mem_cons]
  exact ⟨⟨hbuilding, serve_flag _, hputting _ _⟩, serve_upload _ htree, serve_submit _,
    List.forall_mem_nil _⟩

def asked : List (Exchange Wire.Request Wire.Answer) := storing.flatMap wired

def later : List (Exchange Wire.Request Wire.Answer) := submitting.flatMap wired

theorem ends_background : ∃ result, background.work.run.Ends (asked ++ later) result := by
  have hasks := asks_of_attesting (s := settings) (j := job) rfl reply "bafybeigd"
  obtain ⟨result, hend⟩ := ends_of_asks_submit hasks (.ok 1)
  have hserved : background.work.run.Ends ((storing ++ submitting).flatMap wired) result :=
    Path.serve hend served_work
  rw [List.flatMap_append] at hserved
  exact ⟨result, hserved⟩

theorem mem_asked : (⟨.disk (.rename (Store.temporaryPath (settings.store.treePath 1))
    (settings.store.treePath 1)), .ok ()⟩ : Exchange Wire.Request Wire.Answer) ∈ asked := by
  have hput := mem_putting settings (settings.store.treePath 1) (treeBytes tree)
  have hbuilding : ⟨.disk (.rename (Store.temporaryPath (settings.store.treePath 1))
      (settings.store.treePath 1)), .ok ()⟩ ∈ building settings job reply "bafybeigd" :=
    List.mem_append_right _ (List.mem_append_right _ (List.mem_append_right _ (.tail _ hput)))
  exact List.mem_flatMap.mpr ⟨_, List.mem_append_left _ hbuilding, .head _⟩

theorem mem_later : (⟨.rpc node.endpoint (.send (transaction (.submitRewardSnapshot
    (tree.submission "bafybeigd")) (settings.options 0))), one⟩ : Exchange Wire.Request Wire.Answer) ∈ later :=
  List.mem_flatMap.mpr ⟨_, .tail _ (.head _), .tail _ (.tail _ (.tail _ (.tail _ (.head _))))⟩

/-- A service is set to work. In its first round a tree is due, is built and is stored; then an interrupt comes. The
service stops at once, with success; the execution is still under way, and would have submitted the tree and freed
its lane had it been given the answers that were on their way. -/
theorem stops_before_submission :
    (⟨.disk (.rename (Store.temporaryPath (settings.store.treePath 1)) (settings.store.treePath 1)), .ok ()⟩ :
      Exchange Wire.Request Wire.Answer) ∈ asked ∧
    (⟨.rpc node.endpoint (.send (transaction (.submitRewardSnapshot (tree.submission "bafybeigd"))
      (settings.options 0))), one⟩ : Exchange Wire.Request Wire.Answer) ∈ later ∧
    let out := ready.work.run.run (world World.batches .interrupt) (Running.idle [ticked ++ asked, later])
    let resumed := out.2.engine.proceedAll World.batches fun _ => true
    out.1 = some (.ok true) ∧ out.2.engine.world = [[], later] ∧
      out.2.engine.executions.map (·.lane) = [Duty.SubmitRewards.name] ∧
      out.2.engine.lanes = ⟨[Duty.SubmitRewards.name]⟩ ∧
      resumed.world = [[]] ∧ resumed.executions = [] ∧ resumed.lanes = .empty := by
  refine ⟨mem_asked, mem_later, ?_⟩
  obtain ⟨result, hend⟩ := ends_background
  obtain ⟨e, u, hlater⟩ : ∃ e u, later = e :: u := ⟨_, _, rfl⟩
  rw [hlater] at hend
  obtain ⟨x, hlane, hstarted, hresumed⟩ :=
    World.batches_work hend (Controller.span Duty.SubmitRewards.name 1)
  rw [← hlater] at hstarted hresumed
  have hbegun : (Running.idle [ticked ++ asked, later]).engage World.batches ready =
      ⟨⟨⟨[Duty.SubmitRewards.name]⟩, [x], 1, [[], later]⟩, .finished ⟨some 1⟩⟩ := by
    rw [engage_batches ends_tick, hstarted]
    rfl
  have hout : ready.work.run.run (world World.batches .interrupt) (Running.idle [ticked ++ asked, later]) =
      (some (.ok true), ⟨⟨⟨[Duty.SubmitRewards.name]⟩, [x], 1, [[], later]⟩, .finished ⟨some 1⟩⟩) := by
    rw [run_work, hbegun]
    rfl
  have hrest : (⟨⟨[Duty.SubmitRewards.name]⟩, [x], 1, [[], later]⟩ : Engine _ _ _).proceedAll World.batches
      (fun _ => true) = ⟨.empty, [], 1, [[]]⟩ := hresumed
  rw [hout]
  dsimp only
  rw [hrest]
  exact ⟨rfl, rfl, congrArg (fun lane => [lane]) hlane, rfl, rfl, rfl, rfl⟩

end Service.Interrupted

end OracleDuty
