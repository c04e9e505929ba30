import OracleDuty.Keccak
import OracleDuty.Proofs.Bytes
/-!
The hash as a digest: two messages have one digest exactly if they have one hash, so that messages which differ
and have one digest are a collision.

Main statements: `Keccak.length_hash` and `Keccak.digest_eq_iff`.
-/
namespace OracleDuty.Keccak

theorem length_take_toList (s : Lanes) : (s.toList.take 4).length = 4 := by
  rw [List.length_take, Vector.length_toList]
  rfl

theorem length_hash (message : Bytes) : (hash message).length = 32 := by
  have hl (v : UInt64) : (laneBytes v).length = 8 := by
    rw [laneBytes, List.length_map, List.length_range]
  rw [hash, List.length_flatMap]
  simp only [hl, List.map_const', length_take_toList]
  rfl

/-- A digest holds all of a hash. -/
theorem digest_eq_iff {m m' : Bytes} : digest m = digest m' ↔ hash m = hash m' := by
  constructor
  · intro h
    have hlt : ∀ m, Bytes.toNat (hash m) < 2 ^ 256 := by
      intro m
      have hbound := Bytes.toNat_lt (hash m)
      rw [length_hash] at hbound
      exact hbound
    have hnat : ∀ m, (digest m).toNat = Bytes.toNat (hash m) := by
      intro m
      rw [digest, BitVec.toNat_ofNat, Nat.mod_eq_of_lt (hlt m)]
    have hlength : (hash m).length = (hash m').length := by rw [length_hash, length_hash]
    apply Bytes.toNat_inj hlength
    rw [← hnat, ← hnat, h]
  · intro h
    rw [digest, digest, h]

/-- Two messages that differ and have one hash. -/
def Collision (m m' : Bytes) : Prop := m ≠ m' ∧ hash m = hash m'

theorem digest_eq_iff_collision {m m' : Bytes} (h : m ≠ m') : digest m = digest m' ↔ Collision m m' := by
  rw [digest_eq_iff]
  exact (and_iff_right h).symm

end OracleDuty.Keccak
