import OracleDuty.NetworkState
import OracleDuty.Proofs.Duty.Action
import OracleDuty.Proofs.Process
/-!
The oracle set that a round acts on, by what has been read.

Main statement: `load_views`, by which the members of a state are those that were read last.
-/
namespace OracleDuty.Duty

/-- The oracle set that is known after an answer. Every round begins with the timing, and reads it anew. -/
def nextMembers : Option (List Member) → (q : Request) → Answer q → Option (List Member)
  | _, .timing, _ => none
  | _, .members _, .ok members => some members
  | known, _, _ => known

/-- The oracle set that the latest round has read, if it has come so far. -/
def membersRead : List (Event Request Answer) → Option (List Member)
  | [] => none
  | .heard none q a :: log => nextMembers (membersRead log) q a
  | _ :: log => membersRead log

/-- What is asked to read a state: all of it before the oracle set is known, but for the first request. -/
inductive Loading : Option (List Member) → Request → Prop where
  | timing (known : Option (List Member)) : Loading known .timing
  | head : Loading none .head
  | latestBlock : Loading none .latestBlock
  | rewardInterval (block : UInt64) : Loading none (.rewardInterval block)
  | priceSettings (block : UInt64) : Loading none (.priceSettings block)
  | members (block : UInt64) : Loading none (.members block)

def viewing : Script Request Answer (Option (List Member)) := ⟨Loading, nextMembers⟩

/-- The oracle set that is known is the one that was read last. -/
theorem contracts_views (block : UInt64) :
    viewing.Guides none (NetworkState.contracts block) (fun _ => True)
      fun known r => known = some r.2.2 := by
  unfold NetworkState.contracts
  refine guides_bind.mpr ⟨.rewardInterval block, ?_⟩
  rintro (e | interval)
  · trivial
  refine guides_bind.mpr ⟨.priceSettings block, ?_⟩
  rintro (e | prices)
  · trivial
  refine guides_bind.mpr ⟨.members block, ?_⟩
  rintro (e | members)
  · trivial
  · rfl

/-- Whatever was known before, the members of a state that is read are those that are known then. -/
theorem load_views (known : Option (List Member)) :
    viewing.Guides known NetworkState.load (fun _ => True)
      fun known state => known = some state.members := by
  unfold NetworkState.load
  refine guides_bind.mpr (guides_noting.mpr ⟨.timing known, ?_⟩)
  rintro (e | timing)
  · trivial
  refine guides_bind.mpr (guides_noting.mpr ⟨.head, ?_⟩)
  rintro (e | head)
  · trivial
  refine guides_bind.mpr (guides_noting.mpr ⟨.latestBlock, ?_⟩)
  rintro (e | block)
  · trivial
  refine guides_bind.mpr (guides_noting.mpr ((contracts_views block).mono (fun _ h => h) ?_))
  rintro _ ⟨interval, prices, members⟩ rfl
  exact guides_bind.mpr (guides_log.mpr (guides_pure.mpr rfl))

end OracleDuty.Duty
