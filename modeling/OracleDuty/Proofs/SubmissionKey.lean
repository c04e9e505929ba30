import OracleDuty.Proofs.Keccak
import OracleDuty.Submission.Key
/-!
Keys of flags: what stands before the hash tells a submission from every other one, and from the addresses of
contracts, although its parts follow each other without separators. Tags differ in their first byte, addresses
and subjects have one length each, and a value is there if 32 bytes are left.

Main statement: `Submission.keys_unambiguous`.
-/
namespace OracleDuty

def Submission.Purpose.initial : Purpose → UInt8
  | rewardsSnapshot => 114
  | prices => 110

/-- The tags differ in their first byte already, so that neither is the beginning of the other. -/
theorem Submission.Purpose.initial_injective {p p' : Purpose} (h : p.initial = p'.initial) : p = p' := by
  cases p with
  | rewardsSnapshot =>
    cases p' with
    | rewardsSnapshot => rfl
    | prices => exact absurd h (by decide)
  | prices =>
    cases p' with
    | rewardsSnapshot => exact absurd h (by decide)
    | prices => rfl

theorem Submission.Purpose.head_tag (p : Purpose) (rest : Bytes) :
    (Bytes.ofString p.tag ++ rest).head? = some p.initial := by
  have hfirst : p.tag.toUTF8.data.toList.head? = some p.initial := by
    cases p <;> decide
  rw [Bytes.ofString_eq, List.head?_append, hfirst, Option.some_or]

theorem Registry.head_preimage (name : String) : (preimage name).head? = some 99 := by
  have hfirst : "contract.address".toUTF8.data.toList.head? = some 99 := by decide
  rw [preimage, Bytes.ofString_eq, List.head?_append, hfirst, Option.some_or]

namespace Submission

variable {p p' : Purpose} {a a' : Address} {s s' : Word} {v v' : Option Word}

theorem preimage_eq (p : Purpose) (a : Address) (s : Word) (v : Option Word) :
    preimage p a s v =
      Bytes.ofString p.tag ++ (a.bytes ++ (s.bytes ++ (v.map Word.bytes).getD [])) := by
  rw [preimage, List.append_assoc, List.append_assoc]

/-- A value that may be missing is told by its bytes, which are none or 32. -/
theorem value_injective (h : (v.map Word.bytes).getD [] = (v'.map Word.bytes).getD []) : v = v' := by
  have hlength : ∀ w : Word, w.bytes ≠ [] := by
    intro w hw
    have hl := Word.length_bytes w
    rw [hw] at hl
    cases hl
  cases v with
  | none =>
    cases v' with
    | none => rfl
    | some w => exact absurd h.symm (hlength w)
  | some w =>
    cases v' with
    | none => exact absurd h (hlength w)
    | some w' => rw [Word.bytes_injective h]

/-- All parts but the tag are of fixed length, and so the preimage tells them all. -/
theorem preimage_injective (h : preimage p a s v = preimage p' a' s' v') :
    p = p' ∧ a = a' ∧ s = s' ∧ v = v' := by
  rw [preimage_eq, preimage_eq] at h
  have hp : p = p' := by
    have hhead := congrArg List.head? h
    rw [Purpose.head_tag, Purpose.head_tag] at hhead
    exact Purpose.initial_injective (Option.some.inj hhead)
  subst hp
  -- the tag is the same, so that the parts behind it stand at the same places
  have hrest := List.append_cancel_left h
  have haddress : a.bytes.length = a'.bytes.length := by rw [Address.length_bytes, Address.length_bytes]
  obtain ⟨ha, hrest⟩ := List.append_inj hrest haddress
  have hsubject : s.bytes.length = s'.bytes.length := by rw [Word.length_bytes, Word.length_bytes]
  obtain ⟨hs, hv⟩ := List.append_inj hrest hsubject
  exact ⟨rfl, Address.bytes_injective ha, Word.bytes_injective hs, value_injective hv⟩

theorem registry_preimage_ne (name : String) (p : Purpose) (a : Address) (s : Word) (v : Option Word) :
    Registry.preimage name ≠ preimage p a s v := by
  intro h
  have hhead := congrArg List.head? h
  rw [preimage_eq, Registry.head_preimage, Purpose.head_tag] at hhead
  have hinitial : (99 : UInt8) ≠ p.initial := by
    cases p <;> decide
  exact hinitial (Option.some.inj hhead)

/-- Keys are as good as the hash: two submissions share a key only if they are one or their preimages collide,
and no preimage of a contract's address is the preimage of a submission. -/
theorem keys_unambiguous (p : Purpose) (a : Address) (s : Word) (v : Option Word) :
    (∀ p' a' s' v', key p a s v = key p' a' s' v' ↔
      (p = p' ∧ a = a' ∧ s = s' ∧ v = v') ∨ Keccak.Collision (preimage p a s v) (preimage p' a' s' v')) ∧
    ∀ name, Registry.preimage name ≠ preimage p a s v ∧
      (Registry.key name = key p a s v ↔ Keccak.Collision (Registry.preimage name) (preimage p a s v)) := by
  constructor
  · intro p' a' s' v'
    by_cases h : preimage p a s v = preimage p' a' s' v'
    · obtain ⟨rfl, rfl, rfl, rfl⟩ := preimage_injective h
      exact iff_of_true rfl (.inl ⟨rfl, rfl, rfl, rfl⟩)
    · have hne : ¬(p = p' ∧ a = a' ∧ s = s' ∧ v = v') := by
        rintro ⟨rfl, rfl, rfl, rfl⟩
        exact h rfl
      rw [or_iff_right hne]
      exact Keccak.digest_eq_iff_collision h
  · intro name
    have hne := registry_preimage_ne name p a s v
    exact ⟨hne, Keccak.digest_eq_iff_collision hne⟩

end Submission

end OracleDuty
