import Mathlib.Order.Bounds.Basic
import OracleDuty.Proofs.Checked
import OracleDuty.Proofs.OrderedMap
import OracleDuty.Proofs.TreeFile
/-!
The networks that a submission takes from a rewards tree: those before the first that is missing, in order. Asking
for one network after the other finds them, and ends.

Main statement: `submission_contiguous`.
-/
namespace OracleDuty.RewardsTree

variable {t : RewardsTree} {nets nets' : OrderedMap UInt64 NetworkRewards} {id : UInt64} {r : NetworkRewards}
  {rs rs' : List NetworkRewards}

/-! ### Sorted entries -/

section Entries

variable {first : Nat} {l : List (UInt64 × NetworkRewards)}

/-- No network is counted twice. -/
theorem length_contiguous_le (first : Nat) (l : List (UInt64 × NetworkRewards)) :
    (contiguous first l).length ≤ l.length := by
  induction l generalizing first with
  | nil => exact Nat.le_refl _
  | cons e l ih =>
    rw [contiguous]
    split
    · exact Nat.succ_le_succ (ih (first + 1))
    · exact Nat.zero_le _

/-- Each of the rewards stands under the number that its place tells. -/
theorem mem_of_contiguous {i : Nat} (h : (contiguous first l)[i]? = some r) :
    ∃ id, (id, r) ∈ l ∧ id.toNat = first + i := by
  induction l generalizing first i with
  | nil => cases h
  | cons e l ih =>
    rw [contiguous] at h
    split at h
    · next hfirst =>
      cases i with
      | zero =>
        cases h
        exact ⟨e.1, List.mem_cons_self, hfirst⟩
      | succ i =>
        obtain ⟨id, hmem, hid⟩ := ih h
        exact ⟨id, List.mem_cons_of_mem _ hmem, by omega⟩
    · cases h

/-- The number after the last of the rewards is missing, since no later entry has a smaller one. -/
theorem ne_of_contiguous (hl : l.Pairwise fun a b => KeyOrder.lt a.1 b.1 = true)
    (hfirst : ∀ e ∈ l, first ≤ e.1.toNat) :
    ∀ e ∈ l, e.1.toNat ≠ first + (contiguous first l).length := by
  induction l generalizing first with
  | nil => exact fun e he => nomatch he
  | cons a l ih =>
    obtain ⟨ha, hl⟩ := List.pairwise_cons.mp hl
    have hlater : ∀ e ∈ l, a.1.toNat < e.1.toNat := by
      intro e he
      exact UInt64.lt_iff_toNat_lt.mp (of_decide_eq_true (ha e he))
    have hle := hfirst a List.mem_cons_self
    rw [contiguous]
    split
    · next hhere =>
      have hrest : ∀ e ∈ l, e.1.toNat ≠ first + 1 + (contiguous (first + 1) l).length :=
        ih hl fun e he => hhere ▸ hlater e he
      intro e he
      rw [List.length_cons]
      rcases List.mem_cons.mp he with rfl | he
      · omega
      · have hne := hrest e he
        omega
    · next hgap =>
      intro e he
      rw [List.length_nil, Nat.add_zero]
      rcases List.mem_cons.mp he with rfl | he
      · exact hgap
      · have hlt := hlater e he
        omega

end Entries

/-! ### Leading networks -/

/-- The rewards of the networks from number zero on, as long as there is one under each number. -/
structure Leads (nets : OrderedMap UInt64 NetworkRewards) (rs : List NetworkRewards) : Prop where
  found : ∀ i r, rs[i]? = some r → ∃ id, id.toNat = i ∧ nets.get? id = some r
  missing : ∀ id, id.toNat = rs.length → nets.get? id = none

/-- The front of the sorted entries is the rewards of networks zero, one and so on, up to the first that is
missing. -/
theorem leads_contiguous (nets : OrderedMap UInt64 NetworkRewards) :
    Leads nets (contiguous 0 nets.entries) where
  found i r h := by
    obtain ⟨id, hmem, hid⟩ := mem_of_contiguous h
    exact ⟨id, by omega, OrderedMap.get?_eq_some_iff.mpr hmem⟩
  missing id hid := by
    apply OrderedMap.get?_eq_none_iff.mpr
    rintro e he rfl
    apply ne_of_contiguous nets.sorted (fun _ _ => Nat.zero_le _) e he
    rw [hid, Nat.zero_add]

namespace Leads

variable (h : Leads nets rs)

include h

theorem get? (hid : id.toNat < rs.length) : nets.get? id = some rs[id.toNat] := by
  obtain ⟨id', hid', hget⟩ := h.found _ _ (List.getElem?_eq_getElem hid)
  obtain rfl := UInt64.toNat_inj.mp hid'
  exact hget

/-- Their number is the least that no network has. -/
theorem isLeast : IsLeast {i : Nat | ∀ id, id.toNat = i → nets.get? id = none} rs.length := by
  refine ⟨h.missing, ?_⟩
  intro i hi
  by_contra hlt
  obtain ⟨id, hid, hget⟩ := h.found i _ (List.getElem?_eq_getElem (Nat.not_le.mp hlt))
  rw [hi id hid] at hget
  cases hget

theorem congr (hsame : ∀ id, id.toNat ≤ rs.length → nets'.get? id = nets.get? id) : Leads nets' rs where
  found i r hr := by
    obtain ⟨id, hid, hget⟩ := h.found i r hr
    obtain ⟨hlt, _⟩ := List.getElem?_eq_some_iff.mp hr
    exact ⟨id, hid, (hsame id (by omega)).trans hget⟩
  missing id hid := (hsame id (Nat.le_of_eq hid)).trans (h.missing id hid)

theorem unique (h' : Leads nets rs') : rs = rs' := by
  have hlength : rs.length = rs'.length := h.isLeast.unique h'.isLeast
  apply List.ext_getElem hlength
  intro i hi hi'
  obtain ⟨id, rfl, hget⟩ := h.found i _ (List.getElem?_eq_getElem hi)
  exact Option.some.inj (hget.symm.trans (h'.get? hi'))

end Leads

/-! ### Asking for one network after the other -/

/-- Asks for the networks from `id` on, up to the first that is missing. Before each of them is asked for, the number
after it is made ready, which has to be one of 64 bits. -/
inductive Gathers (nets : OrderedMap UInt64 NetworkRewards) : UInt64 → List NetworkRewards → Prop where
  | missing {id next : UInt64} : Checked.add? id 1 = some next → nets.get? id = none → Gathers nets id []
  | found {id next : UInt64} {r : NetworkRewards} {rs : List NetworkRewards} :
      Checked.add? id 1 = some next → nets.get? id = some r → Gathers nets next rs →
      Gathers nets id (r :: rs)

/-- Asking for one network after the other can come out in one way only. -/
theorem Gathers.unique (h : Gathers nets id rs) (h' : Gathers nets id rs') : rs = rs' := by
  induction h generalizing rs' with
  | missing _ hget =>
    cases h' with
    | missing => rfl
    | found _ hget' _ => cases hget.symm.trans hget'
  | found hnext hget _ ih =>
    cases h' with
    | missing _ hget' => cases hget.symm.trans hget'
    | found hnext' hget' h' =>
      obtain rfl := Option.some.inj (hnext.symm.trans hnext')
      obtain rfl := Option.some.inj (hget.symm.trans hget')
      rw [ih h']

/-- To ask for networks by number comes to the front of the sorted entries, where no number overflows. -/
theorem Leads.gathers (h : Leads nets rs) (hfit : rs.length + 1 < UInt64.size) {id : UInt64}
    (hid : id.toNat ≤ rs.length) : Gathers nets id (rs.drop id.toNat) := by
  -- on the number of networks that are left
  induction hleft : rs.length - id.toNat generalizing id with
  | zero =>
    have hend : id.toNat = rs.length := by omega
    have hone : id.toNat + (1 : UInt64).toNat < UInt64.size := by
      rw [hend]
      exact hfit
    rw [hend, List.drop_length]
    exact .missing (Checked.add?_eq hone) (h.missing id hend)
  | succ left ih =>
    have hlt : id.toNat < rs.length := by omega
    have hone : id.toNat + (1 : UInt64).toNat < UInt64.size := by
      rw [UInt64.toNat_one]
      omega
    have hnext : (id + 1).toNat = id.toNat + 1 := by
      rw [UInt64.toNat_add]
      exact Nat.mod_eq_of_lt hone
    have hrest : Gathers nets (id + 1) (rs.drop (id + 1).toNat) := ih (by omega) (by omega)
    rw [hnext] at hrest
    rw [List.drop_eq_getElem_cons hlt]
    exact .found (Checked.add?_eq hone) (h.get? hlt) hrest

/-! ### Submissions -/

/-- The tree with rewards of other networks. -/
def withNetworks (t : RewardsTree) (nets : OrderedMap UInt64 NetworkRewards) : RewardsTree :=
  { t with header := { t.header with networkRewards := nets } }

/-- Networks after the first missing one do not matter. -/
theorem submission_withNetworks
    (h : ∀ id, id.toNat ≤ t.leadingNetworks.length → nets.get? id = t.header.networkRewards.get? id)
    (cid : String) : (t.withNetworks nets).submission cid = t.submission cid := by
  have hleads : Leads nets t.leadingNetworks := (leads_contiguous _).congr h
  have hleading : (t.withNetworks nets).leadingNetworks = t.leadingNetworks :=
    (leads_contiguous nets).unique hleads
  unfold submission
  rw [hleading]
  rfl

/-- A submission takes the networks before the first that is missing, each under its number. Asking for one network
after the other ends with them, for every map whose entries do not use up the numbers of 64 bits. What stands behind
the first that is missing does not matter, and the tree that is read from the file leads to the same submission. -/
theorem submission_contiguous (t : RewardsTree) (cid : String) :
    ∃ n, IsLeast {i : Nat | ∀ id, id.toNat = i → t.header.networkRewards.get? id = none} n ∧
      (t.submission cid).nodeRpl.length = n ∧ (t.submission cid).trustedNodeRpl.length = n ∧
      (t.submission cid).nodeEth.length = n ∧
      (∀ id, id.toNat < n → ∃ r, t.header.networkRewards.get? id = some r ∧
        (t.submission cid).nodeRpl[id.toNat]? = some r.collateralRpl ∧
        (t.submission cid).trustedNodeRpl[id.toNat]? = some r.oracleDaoRpl ∧
        (t.submission cid).nodeEth[id.toNat]? = some r.smoothingPoolEth) ∧
      (t.header.networkRewards.entries.length + 1 < UInt64.size →
        ∃ rs, (∀ rs', Gathers t.header.networkRewards 0 rs' ↔ rs' = rs) ∧
          (t.submission cid).nodeRpl = rs.map (·.collateralRpl) ∧
          (t.submission cid).trustedNodeRpl = rs.map (·.oracleDaoRpl) ∧
          (t.submission cid).nodeEth = rs.map (·.smoothingPoolEth)) ∧
      (∀ nets : OrderedMap UInt64 NetworkRewards,
        (∀ id, id.toNat ≤ n → nets.get? id = t.header.networkRewards.get? id) →
          (t.withNetworks nets).submission cid = t.submission cid) ∧
      ∀ (s : Store) (content : Bytes), s.Produces t content →
        ∃ t', (s.readTree t.header.index).run.Ends
            [⟨.disk (.read (s.treePath t.header.index)), .ok content⟩] (.ok t') ∧
          t'.submission cid = t.submission cid := by
  have hleads : Leads t.header.networkRewards t.leadingNetworks := leads_contiguous _
  refine ⟨t.leadingNetworks.length, hleads.isLeast, List.length_map _, List.length_map _,
    List.length_map _, ?_, ?_, ?_, ?_⟩
  · intro id hid
    refine ⟨_, hleads.get? hid, ?_, ?_, ?_⟩ <;>
      simp only [submission, List.getElem?_map, List.getElem?_eq_getElem hid, Option.map_some]
  · -- the count of the networks does not reach the end of the numbers, so the loop comes to one that is missing
    intro hfit
    have hlength : t.leadingNetworks.length ≤ t.header.networkRewards.entries.length :=
      length_contiguous_le 0 _
    have hstart : (0 : UInt64).toNat ≤ t.leadingNetworks.length := Nat.zero_le _
    have hgathers := hleads.gathers (by omega) hstart
    refine ⟨t.leadingNetworks, ?_, rfl, rfl, rfl⟩
    intro rs'
    constructor
    · intro h
      exact h.unique hgathers
    · rintro rfl
      exact hgathers
  · intro nets h
    exact submission_withNetworks h cid
  · intro s content h
    have hread : Store.decode? content = some t := by
      rw [Store.produces_iff.mp h]
      exact Store.decode?_ofString_encode t
    exact ⟨t, Store.ends_readTree hread, rfl⟩

open Store.Sample in
/-- A network that stands behind missing ones is neither asked for nor taken. -/
theorem submission_contiguous_sample :
    tree.header.networkRewards.entries.length + 1 < UInt64.size ∧
    (∃ rs, Gathers tree.header.networkRewards 0 rs ∧ rs.length = 1 ∧
      (tree.submission "bafybeigd").nodeRpl = rs.map (·.collateralRpl)) ∧
    (tree.withNetworks (tree.header.networkRewards.erase 3)).submission "bafybeigd" =
      tree.submission "bafybeigd" ∧
    ∃ content t', store.Produces tree content ∧
      (store.readTree 5).run.Ends [⟨.disk (.read (store.treePath 5)), .ok content⟩] (.ok t') ∧
      t'.submission "bafybeigd" = tree.submission "bafybeigd" := by
  obtain ⟨n, ⟨hmissing, hleast⟩, hlength, _, _, _, hwalk, hothers, hfile⟩ :=
    submission_contiguous tree "bafybeigd"
  have hle : n ≤ 1 := by
    apply hleast
    intro id hid
    obtain rfl : id = 1 := UInt64.toNat_inj.mp hid
    rfl
  have hne : n ≠ 0 := by
    rintro rfl
    exact absurd (hmissing 0 rfl) (by decide)
  obtain rfl : n = 1 := by omega
  have hfit : tree.header.networkRewards.entries.length + 1 < UInt64.size := by decide
  obtain ⟨rs, hrs, hrpl, _, _⟩ := hwalk hfit
  refine ⟨hfit, ⟨rs, (hrs rs).mpr rfl, ?_, hrpl⟩, ?_, ?_⟩
  · rw [hrpl, List.length_map] at hlength
    exact hlength
  · apply hothers
    intro id hid
    have hbelow : id ≠ 3 := by
      rintro rfl
      exact absurd hid (by decide)
    rw [OrderedMap.get?_erase, if_neg (Ne.symm hbelow)]
  · have hproduces := Store.produces_iff (s := store).mpr (Eq.refl (Bytes.ofString tree.encode))
    obtain ⟨t', hread, hsame⟩ := hfile store _ hproduces
    exact ⟨_, t', hproduces, hread, hsame⟩

end OracleDuty.RewardsTree
