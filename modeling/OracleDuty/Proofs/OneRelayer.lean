import OracleDuty.Proofs.Duty.RelayPrices
import OracleDuty.Proofs.Turn
/-!
Turns among nodes: whose turn it is at a block, and that nobody else relays prices then.

Main statements: `leads_iff_of_nodup`, which names the member whose turn it is, and `one_relayer`.
-/
namespace OracleDuty.Duty.RelayPrices

section Turns

variable {state : NetworkState} {node : Address}

/-! ### Whose turn it is -/

/-- Turns are of 75 blocks, and go around the members in their order. -/
theorem isMine_iff {position count : Nat} (hposition : position < count) (hcount : count < UInt64.size)
    (block : UInt64) :
    Turn.isMine (UInt64.ofNat position) block Turn.blocksPerTurn (UInt64.ofNat count) = true ↔
      block.toNat / 75 % count = position := by
  -- neither the position nor the number of members wraps around
  have hcount' : (UInt64.ofNat count).toNat = count := UInt64.toNat_ofNat_of_lt' hcount
  have hposition' : (UInt64.ofNat position).toNat = position :=
    UInt64.toNat_ofNat_of_lt' (Nat.lt_trans hposition hcount)
  have hsome : UInt64.ofNat count ≠ 0 := by
    intro h
    rw [h] at hcount'
    exact absurd hcount' (Nat.ne_of_lt (Nat.zero_lt_of_lt hposition))
  rw [Turn.isMine_iff (by decide) hsome, hcount', hposition']
  rfl

/-- The turn is a node's if it is that of its first position in the list. -/
theorem leads_iff (hcount : state.members.length < UInt64.size) : Leads state node ↔
    ∃ position, state.members.findIdx? (fun m => m.address == node) = some position ∧
      state.block.toNat / 75 % state.members.length = position := by
  have hlt : ∀ {position}, state.members.findIdx? (fun m => m.address == node) = some position →
      position < state.members.length := by
    intro position h
    exact (List.findIdx?_eq_some_iff_getElem.mp h).1
  constructor
  · rintro ⟨index, hindex, hmine⟩
    obtain ⟨position, hposition, rfl⟩ := Option.map_eq_some_iff.mp hindex
    exact ⟨position, hposition, (isMine_iff (hlt hposition) hcount state.block).mp hmine⟩
  · rintro ⟨position, hposition, hturn⟩
    refine ⟨UInt64.ofNat position, Option.map_eq_some_iff.mpr ⟨position, hposition, rfl⟩, ?_⟩
    exact (isMine_iff (hlt hposition) hcount state.block).mpr hturn

theorem address_of_findIdx? {members : List Member} {position : Nat}
    (h : members.findIdx? (fun m => m.address == node) = some position) :
    ∃ m, members[position]? = some m ∧ m.address = node := by
  obtain ⟨hlt, heq, -⟩ := List.findIdx?_eq_some_iff_getElem.mp h
  exact ⟨members[position], List.getElem?_eq_getElem hlt, by simpa using heq⟩

/-- The turn is that of the member at its position in the list. -/
theorem address_of_leads (hcount : state.members.length < UInt64.size) (h : Leads state node) :
    ∃ m, state.members[state.block.toNat / 75 % state.members.length]? = some m ∧ m.address = node := by
  obtain ⟨position, hposition, hturn⟩ := (leads_iff hcount).mp h
  rw [hturn]
  exact address_of_findIdx? hposition

theorem mem_of_leads (h : Leads state node) : ∃ m ∈ state.members, m.address = node := by
  obtain ⟨index, hindex, -⟩ := h
  obtain ⟨position, hposition, -⟩ := Option.map_eq_some_iff.mp hindex
  obtain ⟨m, hm, haddress⟩ := address_of_findIdx? hposition
  exact ⟨m, List.mem_of_getElem? hm, haddress⟩

theorem leads_unique {node' : Address} (hcount : state.members.length < UInt64.size)
    (h : Leads state node) (h' : Leads state node') : node = node' := by
  obtain ⟨m, hm, rfl⟩ := address_of_leads hcount h
  obtain ⟨m', hm', rfl⟩ := address_of_leads hcount h'
  rw [Option.some.inj (hm.symm.trans hm')]

theorem leads_iff_of_nodup (hcount : state.members.length < UInt64.size)
    (hdistinct : (state.members.map (·.address)).Nodup) : Leads state node ↔
      ∃ m, state.members[state.block.toNat / 75 % state.members.length]? = some m ∧ m.address = node := by
  refine ⟨address_of_leads hcount, ?_⟩
  rintro ⟨m, hm, rfl⟩
  obtain ⟨hlt, rfl⟩ := List.getElem?_eq_some_iff.mp hm
  exact ⟨_, Turn.indexOf?_getElem hdistinct hlt, (isMine_iff hlt hcount state.block).mpr rfl⟩

/-! ### Who relays -/

/-- A node whose turn it is not asks for nothing but the rates that are out of date. -/
theorem run_reads_of_idle {S : Type} {k : Script Request Answer S} {s : Settings} {m : S}
    (h : ¬Leads state s.node) (hstale : k.asks m (.stale s.messengers state.block)) :
    k.Guides m (RelayPrices.run s state) (fun _ => True) fun _ _ => True := by
  by_cases hm : s.messengers = []
  · unfold RelayPrices.run
    rw [if_pos (by simp [hm])]
    trivial
  rw [run_eq hm]
  refine guides_bind.mpr ((staleMessengers_reads s state m hstale).mono (fun _ h => h) ?_)
  intro _ stale _
  unfold serve
  split
  · trivial
  split
  · trivial
  next index hindex =>
  have hmine : ¬Turn.isMine index state.block Turn.blocksPerTurn (UInt64.ofNat state.members.length) =
      true := fun hmine => h ⟨index, hindex, hmine⟩
  rw [if_pos (by simpa using hmine)]
  trivial

theorem leads_of_asks_submit {s : Settings} {t : List (Exchange Request Answer)} {call : Call}
    {options : TxOptions} (h : (RelayPrices.run s state).run.Asks t (.submit call options)) :
    Leads state s.node := by
  by_contra hleads
  have hunpaid : unpaid.Guides () (RelayPrices.run s state) (fun _ => True) fun _ _ => True :=
    run_reads_of_idle hleads fun _ _ => nofun
  exact not_asks_of_unpaid hunpaid call options h

theorem opening_ne_pause (s : Settings) (state : NetworkState)
    (stale stale' : List (Relay.Target × Address)) : opening stale ≠ pause s state stale' := by
  unfold opening pause
  split
  · simp [Log.event]
  · split
    · simp [Log.event]
    · simp [Log.event]

/-- At most one node relays at a block, and it is a member. If members have distinct addresses and some rate
is out of date, it is the member whose turn the block lies in: whatever becomes of the relays, it attempts to
serve every messenger whose rate is out of date, and any other node is done at once. The number of members is
one that the positions of members can be told by. -/
theorem one_relayer (state : NetworkState) (hcount : state.members.length < UInt64.size) :
    (∀ s s' t t' call call' options options', s.node ≠ s'.node →
      (RelayPrices.run s state).run.Asks t (.submit call options) →
      ¬(RelayPrices.run s' state).run.Asks t' (.submit call' options')) ∧
    (∀ s t call options, (∀ m ∈ state.members, m.address ≠ s.node) →
      ¬(RelayPrices.run s state).run.Asks t (.submit call options)) ∧
    ((state.members.map (·.address)).Nodup → ∀ s flags,
      flags.length = s.messengers.length → true ∈ flags →
        ((∃ m, state.members[state.block.toNat / 75 % state.members.length]? = some m ∧
            m.address = s.node) →
          (∀ t lines r, (RelayPrices.run s state).run.Concludes
              (⟨.stale s.messengers state.block, .ok flags⟩ :: t) lines r →
            opening (flagged s.messengers flags) ∈ lines ∧ ∃ ds : List Delivery, ds ≠ [] ∧
              ds.map Delivery.recipient = flagged s.messengers flags ∧
              t = ds.flatMap (Delivery.exchanges s) ∧ ∀ d ∈ ds, d.exchanges s ≠ []) ∧
          ∀ ds : List Delivery, ds.map Delivery.recipient = flagged s.messengers flags →
            ∃ lines r, (RelayPrices.run s state).run.Concludes
              (⟨.stale s.messengers state.block, .ok flags⟩ :: ds.flatMap (Delivery.exchanges s)) lines r) ∧
        ((∀ m, state.members[state.block.toNat / 75 % state.members.length]? = some m →
            m.address ≠ s.node) →
          (∀ t lines r, (RelayPrices.run s state).run.Concludes
              (⟨.stale s.messengers state.block, .ok flags⟩ :: t) lines r →
            opening (flagged s.messengers flags) ∉ lines ∧ t = [] ∧ r = .ok ()) ∧
          ∃ lines, (RelayPrices.run s state).run.Concludes
            [⟨.stale s.messengers state.block, .ok flags⟩] lines (.ok ()))) := by
  refine ⟨?_, ?_, ?_⟩
  · intro s s' t t' call call' options options' hne hasks hasks'
    exact hne (leads_unique hcount (leads_of_asks_submit hasks) (leads_of_asks_submit hasks'))
  · intro s t call options hmember hasks
    obtain ⟨m, hm, haddress⟩ := mem_of_leads (leads_of_asks_submit hasks)
    exact hmember m hm haddress
  · intro hdistinct s flags hflags htrue
    have hstale : flagged s.messengers flags ≠ [] := fun h => (flagged_eq_nil_iff hflags).mp h htrue
    have hmessengers : s.messengers ≠ [] := by
      intro h
      exact hstale (by simp [flagged, h])
    simp only [run_concludes_iff_of_flags hmessengers hflags]
    constructor
    · -- the turn is the node's own
      intro hturn
      have hleads := (leads_iff_of_nodup hcount hdistinct).mpr hturn
      constructor
      · intro t lines r hserve
        obtain ⟨ds, hds, rfl, rfl, -⟩ := (serve_concludes_iff_of_leads hstale hleads).mp hserve
        refine ⟨List.mem_cons_self, ds, ?_, hds, rfl, fun d _ => d.exchanges_ne_nil s⟩
        rintro rfl
        exact hstale hds.symm
      · intro ds hds
        obtain ⟨lines, hserve⟩ := exists_serve_concludes hleads ds
        rw [hds] at hserve
        exact ⟨lines, _, hserve⟩
    · -- the turn is another member's, or nobody's
      intro hturn
      have hidle : ¬Leads state s.node := by
        intro h
        obtain ⟨m, hm, haddress⟩ := (leads_iff_of_nodup hcount hdistinct).mp h
        exact hturn m hm haddress
      constructor
      · intro t lines r hserve
        obtain ⟨rfl, rfl, rfl⟩ := (serve_concludes_iff_of_idle (.inr hidle)).mp hserve
        refine ⟨?_, rfl, rfl⟩
        rw [List.mem_singleton]
        exact opening_ne_pause s state _ _
      · exact ⟨_, (serve_concludes_iff_of_idle (.inr hidle)).mpr ⟨rfl, rfl, rfl⟩⟩

end Turns

namespace Turns.Sample

def state : NetworkState where
  block := 80
  slot := 170
  timing := ⟨1000, 12, 32⟩
  interval := ⟨5, 1100, 1000⟩
  prices := ⟨false, 0, 0⟩
  members := [⟨10, 0⟩, ⟨11, 0⟩, ⟨12, 0⟩]

def settings : Settings where
  node := 11
  store := ⟨"", "mainnet"⟩
  treeMode := .download
  fees := ⟨some 50, none⟩
  twapPool := none
  messengers := [(.optimism, 20), (.base, 21)]
  maxWalkback := none

theorem asks_submit : (RelayPrices.run settings state).run.Asks
    [⟨.stale [(.optimism, 20), (.base, 21)] 80, .ok [false, true]⟩]
    (.submit (.submitRate .base 21 .plain) ⟨0, none, some 50, none⟩) :=
  ⟨_, .ask (.note (.note (.refl _)))⟩

theorem ends_run : (RelayPrices.run settings state).run.Ends
    [⟨.stale [(.optimism, 20), (.base, 21)] 80, .ok [false, true]⟩,
      ⟨.submit (.submitRate .base 21 .plain) ⟨0, none, some 50, none⟩, .ok 7⟩] (.ok ()) :=
  .ask (.note (.note (.ask (.note (.note (.refl _))))))

end Turns.Sample

theorem one_relayer_sample : Turns.Sample.state.members.length < UInt64.size ∧
    (∀ s t call options, s.node ≠ 11 →
      ¬(RelayPrices.run s Turns.Sample.state).run.Asks t (.submit call options)) ∧
    ∃ ds : List Delivery, ds.map Delivery.recipient = [(.base, 21)] ∧
      ds.flatMap (Delivery.exchanges Turns.Sample.settings) =
        [⟨.submit (.submitRate .base 21 .plain) ⟨0, none, some 50, none⟩, .ok 7⟩] := by
  obtain ⟨hone, -, hturn⟩ := one_relayer Turns.Sample.state (by decide)
  refine ⟨by decide, ?_, ?_⟩
  · intro s t call options hnode
    exact hone Turns.Sample.settings s _ t _ call _ options (Ne.symm hnode) Turns.Sample.asks_submit
  · obtain ⟨lines, hlines⟩ := Turns.Sample.ends_run.concludes
    obtain ⟨hmember, -⟩ := hturn (by decide) Turns.Sample.settings [false, true] rfl (by simp)
    obtain ⟨-, ds, -, hds, hexchanges, -⟩ := (hmember ⟨⟨11, 0⟩, by decide, rfl⟩).1 _ lines _ hlines
    exact ⟨ds, hds, hexchanges.symm⟩

end OracleDuty.Duty.RelayPrices
