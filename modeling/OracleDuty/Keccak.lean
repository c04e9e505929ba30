import OracleDuty.Word
/-!
The Keccak hash with 256 bits of output and the padding byte `0x01`, as the execution chain uses it.
-/
namespace OracleDuty.Keccak

/-- Twenty-five lanes of 64 bits; lane `(x, y)` stands at `x + 5 * y`. -/
abbrev Lanes := Vector UInt64 25

def lane (s : Lanes) (x y : Nat) : UInt64 :=
  have h : x % 5 + 5 * (y % 5) < 25 := by
    have := Nat.mod_lt x (by decide : 5 > 0)
    have := Nat.mod_lt y (by decide : 5 > 0)
    omega
  s[x % 5 + 5 * (y % 5)]

def entry (v : Vector UInt64 5) (x : Nat) : UInt64 :=
  have h : x % 5 < 5 := Nat.mod_lt x (by decide)
  v[x % 5]

def tabulate (f : (x y : Nat) → UInt64) : Lanes := Vector.ofFn fun i => f (i.val % 5) (i.val / 5)

def rotateLeft (v : UInt64) (n : UInt64) : UInt64 := (v <<< n) ||| (v >>> (64 - n))

def offsets : Vector UInt64 25 :=
  #v[0, 1, 62, 28, 27, 36, 44, 6, 55, 20, 3, 10, 43, 25, 39, 41, 45, 15, 21, 8, 18, 2, 61, 56, 14]

def column (s : Lanes) (x : Nat) : UInt64 :=
  lane s x 0 ^^^ lane s x 1 ^^^ lane s x 2 ^^^ lane s x 3 ^^^ lane s x 4

def theta (s : Lanes) : Lanes :=
  let c := Vector.ofFn fun i : Fin 5 => column s i.val
  let d := Vector.ofFn fun i : Fin 5 => entry c (i.val + 4) ^^^ rotateLeft (entry c (i.val + 1)) 1
  tabulate fun x y => lane s x y ^^^ entry d x

def rhoPi (s : Lanes) : Lanes :=
  tabulate fun x y =>
    let source := (x + 3 * y) % 5
    rotateLeft (lane s source x) (lane offsets source x)

def chi (s : Lanes) : Lanes :=
  tabulate fun x y => lane s x y ^^^ (~~~ lane s (x + 1) y &&& lane s (x + 2) y)

def iota (constant : UInt64) (s : Lanes) : Lanes := s.set 0 (s[0] ^^^ constant)

def constants : List UInt64 :=
  [0x0000000000000001, 0x0000000000008082, 0x800000000000808a, 0x8000000080008000,
   0x000000000000808b, 0x0000000080000001, 0x8000000080008081, 0x8000000000008009,
   0x000000000000008a, 0x0000000000000088, 0x0000000080008009, 0x000000008000000a,
   0x000000008000808b, 0x800000000000008b, 0x8000000000008089, 0x8000000000008003,
   0x8000000000008002, 0x8000000000000080, 0x000000000000800a, 0x800000008000000a,
   0x8000000080008081, 0x8000000000008080, 0x0000000080000001, 0x8000000080008008]

def permute (s : Lanes) : Lanes :=
  constants.foldl (fun s c => iota c (chi (rhoPi (theta s)))) s

def rate : Nat := 136

def pad (message : Bytes) : Bytes :=
  let missing := rate - message.length % rate
  if missing = 1 then message ++ [0x81]
  else message ++ [0x01] ++ List.replicate (missing - 2) 0 ++ [0x80]

def littleEndian (bs : Bytes) : UInt64 :=
  bs.foldr (fun b n => (n <<< 8) ||| b.toUInt64) 0

def absorbBlock (s : Lanes) (block : Bytes) : Lanes :=
  let words := (List.range 17).map fun i => littleEndian ((block.drop (8 * i)).take 8)
  permute (Vector.ofFn fun i : Fin 25 => s[i] ^^^ words[i.val]?.getD 0)

def absorb (s : Lanes) : Bytes → Lanes
  | [] => s
  | b :: rest => absorb (absorbBlock s ((b :: rest).take rate)) (rest.drop (rate - 1))
termination_by message => message.length
decreasing_by
  simp only [List.length_drop, List.length_cons]
  omega

def laneBytes (v : UInt64) : Bytes :=
  (List.range 8).map fun i => (v >>> UInt64.ofNat (8 * i)).toUInt8

def hash (message : Bytes) : Bytes :=
  ((absorb (Vector.replicate 25 0) (pad message)).toList.take 4).flatMap laneBytes

def digest (message : Bytes) : Digest := BitVec.ofNat 256 (Bytes.toNat (hash message))

end OracleDuty.Keccak
