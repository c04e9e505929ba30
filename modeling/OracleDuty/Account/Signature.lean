import OracleDuty.Account
import OracleDuty.Sha256
/-!
Signatures. The number that a signature must not use twice is drawn from the key and the message by a
keyed hash, so that signing is a function.
-/
namespace OracleDuty.Account

structure Signature where
  r : Nat
  s : Nat
  isOdd : Bool
deriving DecidableEq

def inverseOfScalar (a : Nat) : Nat := (euclid n (a % n) 0 1 % (n : Int)).toNat

/-- The signature of a hash with a secret number, if the number serves. The smaller one of `s` and `n - s`
is taken. -/
def signWith? (key hash secret : Nat) : Option Signature := do
  guard (0 < secret ∧ secret < n)
  let (x, y) ← scale secret generator
  let r := x % n
  let s := inverseOfScalar secret * (hash + r * key) % n
  guard (0 < r ∧ 0 < s)
  if n < 2 * s then return ⟨r, n - s, y % 2 = 0⟩ else return ⟨r, s, y % 2 = 1⟩

structure Source where
  key : Bytes
  value : Bytes

def Source.stir (s : Source) (bs : Bytes) : Source :=
  let key := Sha256.keyed s.key (s.value ++ bs)
  ⟨key, Sha256.keyed key s.value⟩

def Source.ofKey (key hash : Nat) : Source :=
  let seed := Bytes.bigEndian 32 key ++ Bytes.bigEndian 32 (hash % n)
  ((⟨List.replicate 32 0, List.replicate 32 1⟩ : Source).stir (0 :: seed)).stir (1 :: seed)

def signFrom? (key hash : Nat) : (tries : Nat) → Source → Option Signature
  | 0, _ => none
  | tries + 1, source =>
    let value := Sha256.keyed source.key source.value
    match signWith? key hash (Bytes.toNat value) with
    | some signature => some signature
    | none => signFrom? key hash tries ({ source with value }.stir [0])

/-- Signs a hash of thirty-two bytes. That a hundred numbers in a row should not serve is out of the
question. -/
def sign? (key : Nat) (hash : Bytes) : Option Signature :=
  let h := Bytes.toNat hash
  signFrom? key h 100 (Source.ofKey key h)

end OracleDuty.Account
