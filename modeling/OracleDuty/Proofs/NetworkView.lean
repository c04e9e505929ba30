import OracleDuty.Service
import OracleDuty.Proofs.Beacon.Fetching
import OracleDuty.Proofs.Execution.Contracts
/-!
A network state is one consistent view of both chains: its contracts are read at one block, in any order among each
other, and it is there if and only if all that was asked for succeeded.

Main statement: `NetworkState.load_consistent`.
-/
namespace OracleDuty

open Behaviour Execution

variable {t : List (Exchange Wire.Request Wire.Answer)}

def Wire.Request.calls (kind : Rpc.Call → Bool) : Wire.Request → Bool
  | .rpc _ call => kind call
  | _ => false

def Rpc.Call.isRead : Rpc.Call → Bool
  | .read .. => true
  | _ => false

namespace Clients

/-- Reading the chains. The contracts are read side by side. -/
def view (c : Clients) : Behaviour Wire.Request Wire.Answer NetworkState :=
  (behaviour c.beacon.timing).Then fun timing =>
    (behaviour c.beacon.head).Then fun head =>
      (behaviour c.execution.latestBlock).Then fun block =>
        (Both (behaviour (c.execution.rewardInterval block))
          (Both (behaviour (c.execution.priceSettings block)) (c.execution.roll block))).Then fun read =>
            Pure ⟨block, head.slot, timing, read.1, read.2.1, read.2.2⟩

variable {c : Clients} {α β : Type}

/-- A request behaves as the action by which a client serves it. -/
theorem behaviour_request {ε : Type} {x : Wire.Action ε α} {f : ε → Report}
    {q : Duty.Course (Except Report α)} (hq : q.serve c.serve = (ExceptT.adapt f x).run) {o : Attempt α}
    (h : behaviour (served c.serve (Duty.ask q)) t o) : behaviour x t o := by
  have hserved : served c.serve (Duty.ask q) = ExceptT.adapt f x := hq
  rw [hserved] at h
  exact behaviour_adapt h

/-- Side by side, the contracts may be called in any order: the members, and then all three readings, are
unwoven. -/
theorem behaviour_contracts {block : UInt64} {o : Attempt (Interval × PriceSettings × List Member)}
    (h : behaviour (served c.serve (NetworkState.contracts block)) t o) :
    (Both (behaviour (c.execution.rewardInterval block))
      (Both (behaviour (c.execution.priceSettings block)) (c.execution.roll block))).Then
        (fun read => Pure (read.1, read.2.1, read.2.2)) t o := by
  have hseq : (behaviour (c.execution.rewardInterval block)).Then (fun interval =>
      (behaviour (c.execution.priceSettings block)).Then fun prices =>
        (c.execution.roll block).Then fun members => Pure (interval, prices, members)) t o := by
    refine (behaviour_served_bind h).mono (fun _ _ h => ?_) fun interval t o h => ?_
    · exact behaviour_request (serve_request c.serve (.rewardInterval block)) h
    refine (behaviour_served_bind h).mono (fun _ _ h => ?_) fun prices t o h => ?_
    · exact behaviour_request (serve_request c.serve (.priceSettings block)) h
    refine (behaviour_served_bind h).mono (fun _ _ h => ?_) fun members t o h => behaviour_pure h
    exact behaviour_members (behaviour_request (serve_request c.serve (.members block)) h)
  -- the second and the third reading go on side by side, and the first beside both
  have hroll := steady_roll c.execution block
  have hboth := hseq.mono (fun _ _ h => h) fun interval t o h =>
    h.both (behaviour_steady (c.execution.priceSettings block)) hroll
  exact hboth.both (g := fun interval read => Pure (interval, read.1, read.2)) (behaviour_steady _)
    ((behaviour_steady _).both hroll)

/-- The service loads a state as the chains are read through its clients. -/
theorem behaviour_load {r : Service.Ready} {o : Attempt NetworkState} (h : behaviour r.load t o) :
    r.clients.view t o := by
  change behaviour (served r.clients.serve NetworkState.load) t o at h
  refine (behaviour_served_bind h).mono (fun _ _ h => ?_) fun timing t o h => ?_
  · exact behaviour_request (serve_request r.clients.serve .timing) (behaviour_served_adapt h)
  refine (behaviour_served_bind h).mono (fun _ _ h => ?_) fun head t o h => ?_
  · exact behaviour_request (serve_request r.clients.serve .head) (behaviour_served_adapt h)
  refine (behaviour_served_bind h).mono (fun _ _ h => ?_) fun block t o h => ?_
  · exact behaviour_request (serve_request r.clients.serve .latestBlock) (behaviour_served_adapt h)
  have hread := (behaviour_served_bind h).mono (fun _ _ h => behaviour_contracts (behaviour_served_adapt h))
    fun _ _ _ h => h
  refine hread.assoc.mono (fun _ _ h => h) fun read t o h => ?_
  exact behaviour_note rfl (h.of_pure (behaviour_steady _))

/-! ### What is asked -/

def named? : Except String Json → Option UInt64 := told Rpc.uint64?

def Names (c : Clients) (t : List (Exchange Wire.Request Wire.Answer)) (b : UInt64) : Prop :=
  ∃ answer : Except String Json,
    ⟨.rpc c.execution.endpoint .blockNumber, answer⟩ ∈ t ∧ named? answer = some b

def BeaconRead (c : Clients) (t : List (Exchange Wire.Request Wire.Answer)) (timing : Chain.Timing)
    (head : Chain.Head) : Prop :=
  ∃ u v w, t = u ++ v ++ w ∧ c.beacon.timing.run.Ends u (.ok timing) ∧ c.beacon.head.run.Ends v (.ok head)

/-- All contracts are called at one block. -/
structure Pinned (c : Clients) (t : List (Exchange Wire.Request Wire.Answer)) (calls : List Asked) : Prop where
  /-- The latest block is asked for once at most. -/
  once : (t.filter fun e => e.request.calls (· = .blockNumber)).length ≤ 1
  /-- The calls of contracts are `calls`, each at the block that was named. -/
  block : ∃ b, (t.filter fun e => e.request.calls Rpc.Call.isRead) = calls.map (Asked.exchange c.execution b) ∧
    (calls ≠ [] → c.Names t b) ∧ ∀ b', c.Names t b' → b' = b

/-- The exchanges tell which calls were made. -/
theorem Pinned.unique {calls calls' : List Asked} (h : c.Pinned t calls) (h' : c.Pinned t calls') :
    calls' = calls := by
  obtain ⟨b, hcalls, -⟩ := h.block
  obtain ⟨b', hcalls', -⟩ := h'.block
  exact map_exchange_injective (hcalls'.symm.trans hcalls)

structure ShowsContracts (n : Execution.Node) (calls : List Asked) (s : NetworkState) : Prop where
  interval : ∃ own : List Asked, own.Sublist calls ∧ ReadInterval n own s.interval
  prices : ∃ own : List Asked, own.Sublist calls ∧ ReadPrices n own s.prices
  /-- As many members as are counted, each by the calls for its position. -/
  members : ∃ lookup nodes count k, LookedUp n .trustedNodes lookup nodes ∧ lookup.Sublist calls ∧
    ⟨nodes, .getMemberCount, count⟩ ∈ calls ∧ answeredNumber? count = some k ∧
      List.Forall₂ (fun i m => ∃ own : List Asked, own.Sublist calls ∧ ReadMember nodes i own m)
        (List.range k.toNat) s.members
  /-- No other call is made. -/
  length_calls : calls.length = 11 + 2 * s.members.length

/-- A state shows what was read. -/
structure Shows (c : Clients) (t : List (Exchange Wire.Request Wire.Answer)) (calls : List Asked)
    (s : NetworkState) : Prop extends ShowsContracts c.execution calls s where
  block : c.Names t s.block
  beacon : ∃ head, c.BeaconRead t s.timing head ∧ s.slot = head.slot

/-- What a run has asked and returned is one consistent view. -/
structure Consistent (c : Clients) (t : List (Exchange Wire.Request Wire.Answer)) (calls : List Asked)
    (o : Attempt NetworkState) : Prop extends c.Pinned t calls where
  /-- What has come to its end has returned a state if and only if all succeeded. -/
  exactly : o ≠ .underWay → ((∃ s, o = .done s) ↔
    (∃ timing head, c.BeaconRead t timing head) ∧ (∃ b, c.Names t b) ∧ ∀ y ∈ calls, y.Succeeds)
  shows : ∀ s, o = .done s → c.Shows t calls s

theorem Pinned.underWay {calls : List Asked} (h : c.Pinned t calls) : c.Consistent t calls .underWay where
  toPinned := h
  exactly := fun hne => absurd rfl hne
  shows := nofun

/-- A run that has failed shows why: by the beacon node, by the block, or by one of the calls. -/
theorem Pinned.failed {calls : List Asked} (h : c.Pinned t calls)
    (hfail : ∀ timing head b, c.BeaconRead t timing head → c.Names t b → ∃ y ∈ calls, ¬y.Succeeds) :
    c.Consistent t calls .failed where
  toPinned := h
  exactly := by
    intro _
    constructor
    · rintro ⟨s, hs⟩
      cases hs
    · rintro ⟨⟨timing, head, hbeacon⟩, ⟨b, hb⟩, hall⟩
      obtain ⟨y, hy, hbad⟩ := hfail timing head b hbeacon hb
      exact absurd (hall y hy) hbad
  shows := nofun

/-- A run that has returned a state has succeeded in all that it asked for. -/
theorem Pinned.done {calls : List Asked} {s : NetworkState} (h : c.Pinned t calls)
    (hall : ∀ y ∈ calls, y.Succeeds) (hs : c.Shows t calls s) : c.Consistent t calls (.done s) where
  toPinned := h
  exactly := by
    intro _
    obtain ⟨head, hbeacon, _⟩ := hs.beacon
    exact iff_of_true ⟨s, rfl⟩ ⟨⟨_, head, hbeacon⟩, ⟨_, hs.block⟩, hall⟩
  shows := by
    intro s' hs'
    cases hs'
    exact hs

/-! ### Before the contracts are read -/

def Silent (t : List (Exchange Wire.Request Wire.Answer)) : Prop :=
  ∀ e ∈ t, ∀ url call, e.request ≠ .rpc url call

variable {early : List (Exchange Wire.Request Wire.Answer)}

theorem Silent.filter_eq_nil (h : Silent early) (kind : Rpc.Call → Bool) :
    (early.filter fun e => e.request.calls kind) = [] := by
  rw [List.filter_eq_nil_iff]
  rintro ⟨q, a⟩ he hkind
  cases q with
  | rpc url call => exact h _ he url call rfl
  | _ => cases hkind

theorem Silent.not_names (h : Silent early) (b : UInt64) : ¬c.Names early b := by
  rintro ⟨answer, hmem, _⟩
  exact h _ hmem _ _ rfl

theorem Silent.pinned (h : Silent early) : c.Pinned early [] where
  once := by
    rw [h.filter_eq_nil]
    exact Nat.zero_le 1
  block := by
    refine ⟨0, h.filter_eq_nil Rpc.Call.isRead, fun hne => absurd rfl hne, fun b hb => ?_⟩
    exact absurd hb (h.not_names b)

/-- Once the latest block is asked for, the answer to this decides which block is named. -/
theorem Silent.names_iff (h : Silent early) {answer : Except String Json} {block b : UInt64} {calls : List Asked} :
    c.Names (early ++ ⟨.rpc c.execution.endpoint .blockNumber, answer⟩ ::
      calls.map (Asked.exchange c.execution block)) b ↔ named? answer = some b := by
  constructor
  · rintro ⟨answer', hmem, hb⟩
    rcases List.mem_append.mp hmem with hmem | hmem
    · exact absurd rfl (h _ hmem _ _)
    rcases List.mem_cons.mp hmem with heq | hmem
    · cases heq
      exact hb
    · obtain ⟨y, _, hy⟩ := List.mem_map.mp hmem
      cases hy
  · intro hb
    exact ⟨answer, List.mem_append_right _ List.mem_cons_self, hb⟩

/-- Before the block is named no contract is called, and afterwards the calls are at that block. -/
theorem Silent.pinned_cons (h : Silent early) {answer : Except String Json} (block : UInt64)
    (calls : List Asked) (hcalls : calls ≠ [] → named? answer = some block) :
    c.Pinned (early ++ ⟨.rpc c.execution.endpoint .blockNumber, answer⟩ ::
      calls.map (Asked.exchange c.execution block)) calls where
  once := by
    have hnone : ((calls.map (Asked.exchange c.execution block)).filter fun e =>
        e.request.calls (· = .blockNumber)) = [] := by
      rw [List.filter_eq_nil_iff]
      intro e he
      obtain ⟨y, _, rfl⟩ := List.mem_map.mp he
      exact Bool.false_ne_true
    rw [List.filter_append, h.filter_eq_nil, List.filter_cons_of_pos rfl, hnone]
    exact Nat.le_refl 1
  block := by
    have hall : ((calls.map (Asked.exchange c.execution block)).filter fun e => e.request.calls Rpc.Call.isRead) =
        calls.map (Asked.exchange c.execution block) := by
      rw [List.filter_eq_self]
      intro e he
      obtain ⟨y, _, rfl⟩ := List.mem_map.mp he
      rfl
    rw [List.filter_append, h.filter_eq_nil _, List.filter_cons_of_neg Bool.false_ne_true, hall,
      List.nil_append]
    simp only [h.names_iff]
    cases calls with
    | nil => exact ⟨(named? answer).getD 0, rfl, fun hne => absurd rfl hne, fun b hb => by rw [hb]; rfl⟩
    | cons y calls =>
      have hblock := hcalls (List.cons_ne_nil y calls)
      refine ⟨block, rfl, fun _ => hblock, fun b hb => ?_⟩
      rw [hblock] at hb
      exact (Option.some.inj hb).symm

/-- The beacon node is read without a word to the execution node. -/
theorem silent_of_guides {ε : Type} {x : Wire.Action ε α} {m : Beacon.Phase} {bad : Beacon.Phase → Prop}
    {post : Beacon.Phase → α → Prop} (hx : (Beacon.fetching c.beacon).Guides m x bad post) {o : Attempt α}
    (h : behaviour x t o) : Silent t := by
  obtain ⟨r, hr⟩ := behaviour_path h
  have hkind : ∀ m q, Beacon.Phase.Asks c.beacon m q → ∀ url call, q ≠ .rpc url call := by
    intro m q hq url call heq
    subst heq
    cases hq
  exact Program.Follows.kind_of_asks hx hkind hr

/-! ### The view -/

theorem BeaconRead.split {u v : List (Exchange Wire.Request Wire.Answer)} {timing : Chain.Timing}
    {head : Chain.Head} {r : Except Beacon.Error Chain.Timing}
    (h : c.BeaconRead (u ++ v) timing head) (hu : c.beacon.timing.run.Ends u r) :
    r = .ok timing ∧ ∃ w w', v = w ++ w' ∧ c.beacon.head.run.Ends w (.ok head) := by
  obtain ⟨u', w, w', ht, hu', hw⟩ := h
  rw [List.append_assoc] at ht
  obtain ⟨rfl, hr, rfl⟩ := hu.unique hu' ht
  exact ⟨hr, w, w', rfl, hw⟩

/-- The state is put together from readings at one block, and fails by their calls only. -/
theorem reads_state (n : Execution.Node) (block : UInt64) (timing : Chain.Timing) (head : Chain.Head) :
    Reads n block [] ((Both (behaviour (n.rewardInterval block))
      (Both (behaviour (n.priceSettings block)) (n.roll block))).Then fun read =>
        Pure (⟨block, head.slot, timing, read.1, read.2.1, read.2.2⟩ : NetworkState))
      fun calls s => ShowsContracts n calls s ∧ (∀ y ∈ calls, y.Succeeds) ∧
        s.block = block ∧ s.slot = head.slot ∧ s.timing = timing := by
  refine (reads_interval.both (reads_prices.both reads_roll)).then ?_
  rintro calls ⟨interval, prices, members⟩ ⟨u, v, huv, hinterval, u', v', huv', hprices, hroll⟩
  dsimp only at hinterval hprices hroll
  refine reads_pure ⟨?_, ?_, rfl, rfl, rfl⟩
  · have hsub := huv'.sublist_right.trans huv.sublist_right
    have hlength : calls.length = 11 + 2 * members.length := by
      rw [huv.length_eq, huv'.length_eq, hinterval.length_eq, hprices.length_eq, hroll.length_eq]
      omega
    have hsub' := huv'.sublist_left.trans huv.sublist_right
    refine ⟨⟨u, huv.sublist_left, hinterval⟩, ⟨u', hsub', hprices⟩, ?_, hlength⟩
    cases hroll with
    | @read lookup own nodes count k _ hnodes hcount hmembers =>
      have hlookup : lookup.Sublist calls := (List.sublist_append_left _ _).trans hsub
      have hown : own.Sublist calls :=
        ((List.sublist_cons_self _ _).trans (List.sublist_append_right _ _)).trans hsub
      have hmem := hsub.subset (List.mem_append_right lookup List.mem_cons_self)
      refine ⟨lookup, nodes, count, k, hnodes, hlookup, hmem, hcount, hmembers.forall₂.imp ?_⟩
      rintro i m ⟨calls', hcalls', hm⟩
      exact ⟨calls', hcalls'.trans hown, hm⟩
  · intro y hy
    rcases (huv.mem_iff y).mp hy with hy | hy
    · exact hinterval.succeeds y hy
    rcases (huv'.mem_iff y).mp hy with hy | hy
    · exact hprices.succeeds y hy
    · exact hroll.succeeds y hy

/-- By cases on how far the reading of the chains has come. -/
theorem view_consistent {o : Attempt NetworkState} (h : c.view t o) :
    ∃ calls, c.Consistent t calls o := by
  have htiming : ∀ {u o}, behaviour c.beacon.timing u o → Silent u := silent_of_guides Beacon.timing_guides
  have hhead : ∀ {u o}, behaviour c.beacon.head u o → Silent u := silent_of_guides Beacon.head_guides
  cases h with
  | underWay h => exact ⟨[], (htiming h).pinned.underWay⟩
  | failed h =>
    refine ⟨[], (htiming h).pinned.failed fun timing head _ hread => ?_⟩
    obtain ⟨e, he⟩ := h
    rw [← List.append_nil t] at hread
    nomatch (hread.split he).1
  | @second u v timing _ hu h =>
  cases h with
  | underWay h =>
    have hsilent : Silent (u ++ v) := List.forall_mem_append.mpr ⟨htiming hu, hhead h⟩
    exact ⟨[], hsilent.pinned.underWay⟩
  | failed h =>
    have hsilent : Silent (u ++ v) := List.forall_mem_append.mpr ⟨htiming hu, hhead h⟩
    refine ⟨[], hsilent.pinned.failed fun timing head _ hread => ?_⟩
    obtain ⟨e, he⟩ := h
    obtain ⟨_, w, w', hv, hw⟩ := hread.split hu
    nomatch (he.unique hw ((List.append_nil v).trans hv)).2.1
  | @second v w head _ hv h =>
  rw [← List.append_assoc]
  have hsilent : Silent (u ++ v) := List.forall_mem_append.mpr ⟨htiming hu, hhead hv⟩
  -- the beacon chain has been read without a call; the block is asked for next, and the calls are made at it
  cases h with
  | underWay h =>
    rcases ask_cases h with ⟨rfl, _⟩ | ⟨answer, rfl, _⟩
    · rw [List.append_nil]
      exact ⟨[], hsilent.pinned.underWay⟩
    · exact ⟨[], (hsilent.pinned_cons 0 [] fun hne => absurd rfl hne).underWay⟩
  | failed h =>
    rcases ask_cases h with ⟨_, ho⟩ | ⟨answer, rfl, ho | ⟨_, hbad⟩ | ⟨_, ho, _⟩⟩
    · nomatch ho
    · nomatch ho
    · refine ⟨[], (hsilent.pinned_cons 0 [] fun hne => absurd rfl hne).failed ?_⟩
      intro timing head b _ hb
      exact absurd (verdict_eq_ok.mpr (hsilent.names_iff.mp hb)) (hbad b)
    · nomatch ho
  | @second w' t' block _ hw h =>
    rcases ask_cases hw with ⟨_, ho⟩ | ⟨answer, rfl, ho | ⟨ho, _⟩ | ⟨b, ho, hb⟩⟩
    · nomatch ho
    · nomatch ho
    · nomatch ho
    cases ho
    have hnamed : named? answer = some block := verdict_eq_ok.mp hb
    obtain ⟨calls, rfl, hcalls⟩ := reads_state c.execution block timing head t' o h
    have hpinned := hsilent.pinned_cons (c := c) block calls fun _ => hnamed
    refine ⟨calls, ?_⟩
    cases o with
    | underWay => exact hpinned.underWay
    | failed => exact hpinned.failed fun _ _ _ _ _ => hcalls
    | done s =>
      obtain ⟨hshows, hall, rfl, hslot, rfl⟩ := hcalls
      refine hpinned.done hall ⟨hshows, hsilent.names_iff.mpr hnamed, head, ⟨u, v, _, rfl, hu, hv⟩, hslot⟩

theorem steady_view (c : Clients) : c.view.Steady := by
  refine (behaviour_steady _).then fun timing => ?_
  refine (behaviour_steady _).then fun head => ?_
  refine (behaviour_steady _).then fun block => ?_
  have hprices := (behaviour_steady (c.execution.priceSettings block)).both (steady_roll c.execution block)
  have hcontracts := (behaviour_steady (c.execution.rewardInterval block)).both hprices
  exact hcontracts.then fun read => steady_pure _

end Clients

/-- Whether the contracts are read side by side or one after the other, and whatever is answered: all calls are
made at the one block that was named, a run can come to its end, and it has then returned a state if and only if
all that it asked for succeeded. The state shows what was read. Which calls these are is told by the bytes that were
sent, as no two calls have the same ones. -/
theorem NetworkState.load_consistent (r : Service.Ready) :
    (∀ t o, behaviour r.load t o → r.clients.view t o) ∧
      (∀ t o, r.clients.view t o → ∃ calls, r.clients.Consistent t calls o ∧
        ∀ calls', r.clients.Pinned t calls' → calls' = calls) ∧
        r.clients.view.Steady ∧ (behaviour r.load).Steady := by
  refine ⟨fun _ _ => Clients.behaviour_load, fun t o h => ?_, r.clients.steady_view, behaviour_steady r.load⟩
  obtain ⟨calls, hcalls⟩ := Clients.view_consistent h
  exact ⟨calls, hcalls, fun _ h' => hcalls.toPinned.unique h'⟩

namespace Clients.Sample

def ready : Service.Ready where
  settings := ⟨7, ⟨"", "mainnet"⟩, .download, ⟨none, none⟩, none, [], none⟩
  clients := {
    beacon := ⟨⟨"http", some ⟨none, "[::1]", some 5052⟩, .segments [""], none, none⟩⟩
    execution := ⟨⟨"http", some ⟨none, "[::1]", some 8545⟩, .segments [""], none, none⟩, 7, 8⟩
    generator := ⟨⟨"http", some ⟨none, "[::1]", some 8080⟩, .segments [""], none, none⟩⟩
    publisher := ⟨⟨"http", some ⟨none, "[::1]", some 8081⟩, .segments [""], none, none⟩, none⟩ }
  exporter := .absent
  pollSeconds := 12
  shutdownSeconds := 60

def answers : (q : Wire.Request) → Wire.Answer q
  | .http _ => .ok ⟨200, Bytes.ofString
      ("\x7b\"data\":\x7b\"header\":\x7b\"message\":\x7b\"slot\":\"170\"\x7d\x7d," ++
        "\"finalized\":\x7b\"epoch\":\"3\"\x7d\x7d\x7d")⟩
  | .rpc _ .blockNumber => .ok (.string "0x15")
  | .rpc _ _ => .ok (.string ("0x" ++ String.ofList (List.replicate 63 '0') ++ "1"))
  | .keptTiming => some ⟨1000, 12, 32⟩
  | .keepTiming timing => timing
  | .disk _ => .error .notFound
  | .flushMetrics _ => .ok ()

def state : NetworkState where
  block := 21
  slot := 170
  timing := ⟨1000, 12, 32⟩
  interval := ⟨1, 1, 1⟩
  prices := ⟨true, 1, 1⟩
  members := [⟨1, 1⟩]

theorem load_consistent_one_member : ∃ t calls, behaviour ready.load t (.done state) ∧
    ready.clients.Consistent t calls (.done state) := by
  have hresult : (ready.load.run.outcome answers).2.toOption = some state := by decide +kernel
  have hends := Program.ends_outcome answers ready.load.run
  have hdone : behaviour ready.load (ready.load.run.outcome answers).1 (.done state) := by
    cases hr : (ready.load.run.outcome answers).2 with
    | error e =>
      rw [hr] at hresult
      nomatch hresult
    | ok s =>
      rw [hr] at hresult hends
      cases hresult
      exact hends
  obtain ⟨hload, hconsistent, _⟩ := NetworkState.load_consistent ready
  obtain ⟨calls, hcalls, _⟩ := hconsistent _ _ (hload _ _ hdone)
  exact ⟨_, calls, hdone, hcalls⟩

end Clients.Sample

end OracleDuty
