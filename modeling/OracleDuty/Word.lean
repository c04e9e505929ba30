import OracleDuty.Bytes
/-!
The fixed-width values of the execution chain: 256-bit words, account addresses and digests, with
their bytes and texts.
-/
namespace OracleDuty

abbrev Word := BitVec 256

abbrev Address := BitVec 160

abbrev Digest := BitVec 256

abbrev Wei := BitVec 128

namespace Word

def bytes (w : Word) : Bytes := Bytes.bigEndian 32 w.toNat

def decimal (w : Word) : String := toString w.toNat

structure Overflow where
  field : String
  value : Word
deriving DecidableEq

def Overflow.message (e : Overflow) : String :=
  s!"Value {e.value.decimal} of {e.field} does not fit in u64"

def toUInt64? (field : String) (w : Word) : Except Overflow UInt64 :=
  if w.toNat < UInt64.size then .ok (UInt64.ofNat w.toNat) else .error ⟨field, w⟩

@[simp] theorem length_bytes (w : Word) : w.bytes.length = 32 := Bytes.length_bigEndian ..

/-- A word is determined by its bytes. -/
theorem bytes_injective {v w : Word} (h : v.bytes = w.bytes) : v = w := by
  apply BitVec.eq_of_toNat_eq
  have hv : v.toNat % Nat.pow 256 32 = w.toNat % Nat.pow 256 32 := by
    simpa only [bytes, Bytes.toNat_bigEndian] using congrArg Bytes.toNat h
  have h1 : v.toNat < Nat.pow 256 32 := v.isLt
  have h2 : w.toNat < Nat.pow 256 32 := w.isLt
  rwa [Nat.mod_eq_of_lt h1, Nat.mod_eq_of_lt h2] at hv

end Word

namespace Address

def bytes (a : Address) : Bytes := Bytes.bigEndian 20 a.toNat

def text (a : Address) : String := Hex.text a.bytes

@[simp] theorem length_bytes (a : Address) : a.bytes.length = 20 := Bytes.length_bigEndian ..

/-- An address is determined by its bytes. -/
theorem bytes_injective {a b : Address} (h : a.bytes = b.bytes) : a = b := by
  apply BitVec.eq_of_toNat_eq
  have hv : a.toNat % Nat.pow 256 20 = b.toNat % Nat.pow 256 20 := by
    simpa only [bytes, Bytes.toNat_bigEndian] using congrArg Bytes.toNat h
  have h1 : a.toNat < Nat.pow 256 20 := a.isLt
  have h2 : b.toNat < Nat.pow 256 20 := b.isLt
  rwa [Nat.mod_eq_of_lt h1, Nat.mod_eq_of_lt h2] at hv

def ofText? (s : String) : Option Address := do
  let bs ← Hex.decode? (Hex.stripMark s.toList)
  guard (bs.length = 20)
  return BitVec.ofNat 160 (Bytes.toNat bs)

end Address

namespace Digest

def text (d : Digest) : String := Hex.text (Word.bytes d)

def ofBytes? (bs : Bytes) : Option Digest :=
  if bs.length = 32 then some (BitVec.ofNat 256 (Bytes.toNat bs)) else none

def ofText? (s : String) : Option Digest := (Hex.decode? (Hex.stripMark s.toList)).bind ofBytes?

end Digest

end OracleDuty
