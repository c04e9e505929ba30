import OracleDuty.Keccak
/-!
Accounts: the address that belongs to a private key, and the mixed-case text of an address.

The curve is `y² = x³ + 7` over the field with `p` elements; a private key is a positive number
below the order `n` of its generator, and the address is the end of the hash of the public point.
-/
namespace OracleDuty.Account

def p : Nat := 0xfffffffffffffffffffffffffffffffffffffffffffffffffffffffefffffc2f

def n : Nat := 0xfffffffffffffffffffffffffffffffebaaedce6af48a03bbfd25e8cd0364141

/-- A point of the curve; `none` is the neutral element. -/
abbrev Point := Option (Nat × Nat)

def generator : Point :=
  some (0x79be667ef9dcbbac55a06295ce870b07029bfcdb2dce28d959f2815b16f81798,
    0x483ada7726a3c4655da4fbfc0e1108a8fd17b448a68554199c47d08ffb10d4b8)

def euclid : (r₀ r₁ : Nat) → (s₀ s₁ : Int) → Int
  | _, 0, s₀, _ => s₀
  | r₀, r₁ + 1, s₀, s₁ => euclid (r₁ + 1) (r₀ % (r₁ + 1)) s₁ (s₀ - (r₀ / (r₁ + 1) : Nat) * s₁)
termination_by _ r₁ => r₁
decreasing_by exact Nat.mod_lt _ (Nat.succ_pos _)

def inverse (a : Nat) : Nat := (euclid p (a % p) 0 1 % (p : Int)).toNat

def sub (a b : Nat) : Nat := (a % p + p - b % p) % p

def chord (slope x₁ y₁ x₂ : Nat) : Point :=
  let x := sub (sub (slope * slope) x₁) x₂
  some (x, sub (slope * sub x₁ x) y₁)

def add : Point → Point → Point
  | none, q => q
  | q, none => q
  | some (x₁, y₁), some (x₂, y₂) =>
    if x₁ = x₂ then
      if y₁ = y₂ ∧ y₁ ≠ 0 then chord (3 * x₁ * x₁ % p * inverse (2 * y₁) % p) x₁ y₁ x₁
      else none
    else chord (sub y₂ y₁ * inverse (sub x₂ x₁) % p) x₁ y₁ x₂

def scale : (k : Nat) → (q : Point) → Point
  | 0, _ => none
  | k + 1, q =>
    let half := scale ((k + 1) / 2) q
    let twice := add half half
    if (k + 1) % 2 = 1 then add twice q else twice

def ofKey? (key : Nat) : Option Address :=
  if key = 0 ∨ n ≤ key then none
  else (scale key generator).map fun (x, y) =>
    let hash := Keccak.hash (Bytes.bigEndian 32 x ++ Bytes.bigEndian 32 y)
    BitVec.ofNat 160 (Bytes.toNat (hash.drop 12))

def ofText? (text : String) : Option Address :=
  (Digest.ofText? text).bind fun key => ofKey? key.toNat

def checksummed (a : Address) : String :=
  let digits := Hex.encode a.bytes
  let hash := Hex.encode (Keccak.hash (digits.map fun c => UInt8.ofNat c.toNat))
  let cased := (digits.zip hash).map fun (c, h) => if '8' ≤ h then c.toUpper else c
  String.ofList ('0' :: 'x' :: cased)

end OracleDuty.Account
