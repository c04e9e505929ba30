import OracleDuty.Bytes
/-!
The encoding in which transactions are laid out: byte strings and lists, each with its length in front.
-/
namespace OracleDuty.Rlp

def minimal (n : Nat) : Bytes :=
  if _h : n = 0 then [] else minimal (n / 256) ++ [UInt8.ofNat n]
termination_by n
decreasing_by omega

/-- A length in front of `size` bytes. Up to fifty-five it is part of the first byte, and beyond that its own
length is. -/
def header (short : Nat) (size : Nat) : Bytes :=
  if size ≤ 55 then [UInt8.ofNat (short + size)]
  else UInt8.ofNat (short + 55 + (minimal size).length) :: minimal size

/-- A byte string; a single byte below `0x80` stands for itself. -/
def bytes : Bytes → Bytes
  | [b] => if b < 0x80 then [b] else header 0x80 1 ++ [b]
  | bs => header 0x80 bs.length ++ bs

def number (n : Nat) : Bytes := bytes (minimal n)

def list (items : List Bytes) : Bytes :=
  let content := items.flatten
  header 0xc0 content.length ++ content

end OracleDuty.Rlp
