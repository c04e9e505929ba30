import OracleDuty.Disk
/-!
Compressed files in the zstd format. Frames are written as a stream of stored blocks, which every reader
of the format takes, and frames of that kind are read back.
-/
namespace OracleDuty.Zstd

def mark : Bytes := [0x28, 0xB5, 0x2F, 0xFD]

def descriptor : UInt8 := 0x00

def window : UInt8 := 0x38

def blockLimit : Nat := 128 * 1024

def littleEndian (width n : Nat) : Bytes := (Bytes.bigEndian width n).reverse

def ofLittleEndian (bs : Bytes) : Nat := Bytes.toNat bs.reverse

def blockHeader (last : Bool) (size : Nat) : Bytes :=
  littleEndian 3 (8 * size + if last then 1 else 0)

def blocks (bs : Bytes) : Bytes :=
  if _ : bs.length ≤ blockLimit then blockHeader true bs.length ++ bs
  else blockHeader false blockLimit ++ bs.take blockLimit ++ blocks (bs.drop blockLimit)
termination_by bs.length
decreasing_by simp only [List.length_drop, blockLimit] at *; omega

def compress (bs : Bytes) : Bytes :=
  mark ++ descriptor :: window :: blocks bs

/-- Encodes a content as a stream would. The stream reads and writes memory, which refuses neither. -/
def encode (bs : Bytes) : Except Disk.Fault Bytes := .ok (compress bs)

def blocksContent? : (data : Bytes) → Option Bytes
  | a :: b :: c :: rest =>
    let header := ofLittleEndian [a, b, c]
    let size := header / 8
    if header / 2 % 4 ≠ 0 ∨ rest.length < size then none
    else if header % 2 = 1 then if rest.length = size then some rest else none
    else (blocksContent? (rest.drop size)).map (rest.take size ++ ·)
  | _ => none
termination_by data => data.length
decreasing_by simp only [List.length_drop, List.length_cons]; omega

def decompress? (data : Bytes) : Option Bytes :=
  if data.take 6 = mark ++ [descriptor, window] then blocksContent? (data.drop 6) else none

end OracleDuty.Zstd
