/-!
Byte strings, the big-endian form of a number in a fixed number of bytes, and hexadecimal text.
-/
namespace OracleDuty

abbrev Bytes := List UInt8

namespace Bytes

def bigEndian : (width n : Nat) → Bytes
  | 0, _ => []
  | width + 1, n => bigEndian width (n / 256) ++ [UInt8.ofNat n]

def toNat (bs : Bytes) : Nat := bs.foldl (fun n b => 256 * n + b.toNat) 0

def ofString (s : String) : Bytes := s.toUTF8.toList

def text? (bs : Bytes) : Option String := String.fromUTF8? ⟨bs.toArray⟩

def padRight (block : Nat) (bs : Bytes) : Bytes :=
  bs ++ List.replicate ((block - bs.length % block) % block) 0

@[simp] theorem length_bigEndian (width n : Nat) : (bigEndian width n).length = width := by
  induction width generalizing n with
  | zero => rfl
  | succ w ih => simp [bigEndian, ih]

theorem toNat_append_singleton (bs : Bytes) (b : UInt8) :
    toNat (bs ++ [b]) = 256 * toNat bs + b.toNat := by
  simp [toNat]

/-- Reading back the big-endian form gives the number modulo what the width holds. -/
theorem toNat_bigEndian (width n : Nat) : toNat (bigEndian width n) = n % Nat.pow 256 width := by
  induction width generalizing n with
  | zero => simp [bigEndian, toNat, Nat.mod_one]
  | succ w ih =>
    rw [bigEndian, toNat_append_singleton, ih, Nat.pow_eq, Nat.pow_eq, Nat.pow_succ,
      Nat.mul_comm (256 ^ w) 256, Nat.mod_mul]
    simp only [UInt8.toNat_ofNat']
    omega

end Bytes

namespace Hex

def digit (n : Nat) : Char := if n < 10 then Char.ofNat (48 + n) else Char.ofNat (87 + n)

def value? (c : Char) : Option Nat :=
  if '0' ≤ c ∧ c ≤ '9' then some (c.toNat - 48)
  else if 'a' ≤ c ∧ c ≤ 'f' then some (c.toNat - 87)
  else if 'A' ≤ c ∧ c ≤ 'F' then some (c.toNat - 55)
  else none

/-- The number that digits of a base of at most sixteen spell; no digits are zero. -/
def number? (base : Nat) (cs : List Char) : Option Nat :=
  cs.foldlM (fun n c => do
    let d ← value? c
    if d < base then some (base * n + d) else none) 0

def encode (bs : Bytes) : List Char :=
  bs.flatMap fun b => [digit (b.toNat / 16), digit (b.toNat % 16)]

def decode? : List Char → Option Bytes
  | [] => some []
  | [_] => none
  | h :: l :: rest => do
    let high ← value? h
    let low ← value? l
    let bs ← decode? rest
    return UInt8.ofNat (16 * high + low) :: bs

def stripMark : List Char → List Char
  | '0' :: 'x' :: rest => rest
  | '0' :: 'X' :: rest => rest
  | cs => cs

def text (bs : Bytes) : String := String.ofList ('0' :: 'x' :: encode bs)

def quantity (n : Nat) : String := String.ofList ('0' :: 'x' :: Nat.toDigits 16 n)

end Hex

end OracleDuty
