import OracleDuty.Keccak
/-!
The binary format of contract calls: values made of 32-byte words, where a value of variable size
stands behind the others and is pointed at by its offset.
-/
namespace OracleDuty.Abi

inductive Shape where
  | word
  | bytes
  | words
  | tuple (parts : List Shape)
deriving Inhabited

inductive Value where
  | word (w : Word)
  | bytes (bs : Bytes)
  | words (ws : List Word)
  | tuple (parts : List Value)
deriving Inhabited

def wordBytes (n : Nat) : Bytes := Bytes.bigEndian 32 n

mutual

def Value.isDynamic : Value → Bool
  | .word _ => false
  | .bytes _ => true
  | .words _ => true
  | .tuple parts => Value.anyDynamic parts

def Value.anyDynamic : List Value → Bool
  | [] => false
  | v :: rest => v.isDynamic || Value.anyDynamic rest

end

/-- Lays out encoded parts: a part of fixed size stands in the head, and a dynamic part behind it, with
its offset in the head. The offset of the next dynamic part is `next`. -/
def assemble : (next : Nat) → List (Bool × Bytes) → Bytes × Bytes
  | _, [] => ([], [])
  | next, (false, bs) :: rest =>
    let (head, tail) := assemble next rest
    (bs ++ head, tail)
  | next, (true, bs) :: rest =>
    let (head, tail) := assemble (next + bs.length) rest
    (wordBytes next ++ head, bs ++ tail)

def headSize (parts : List (Bool × Bytes)) : Nat :=
  parts.foldr (fun (dynamic, bs) size => (if dynamic then 32 else bs.length) + size) 0

def layout (parts : List (Bool × Bytes)) : Bytes :=
  let (head, tail) := assemble (headSize parts) parts
  head ++ tail

mutual

def Value.encode : Value → Bytes
  | .word w => w.bytes
  | .bytes bs => wordBytes bs.length ++ Bytes.padRight 32 bs
  | .words ws => wordBytes ws.length ++ ws.flatMap Word.bytes
  | .tuple parts => layout (Value.encodeAll parts)

def Value.encodeAll : List Value → List (Bool × Bytes)
  | [] => []
  | v :: rest => (v.isDynamic, v.encode) :: Value.encodeAll rest

end

def selector (signature : String) : Bytes := (Keccak.hash (Bytes.ofString signature)).take 4

def call (signature : String) (arguments : List Value) : Bytes :=
  selector signature ++ (Value.tuple arguments).encode

mutual

def Shape.isDynamic : Shape → Bool
  | .word => false
  | .bytes => true
  | .words => true
  | .tuple parts => Shape.anyDynamic parts

def Shape.anyDynamic : List Shape → Bool
  | [] => false
  | s :: rest => s.isDynamic || Shape.anyDynamic rest

end

mutual

def Shape.headSize : Shape → Nat
  | .word => 32
  | .bytes => 32
  | .words => 32
  | .tuple parts => if Shape.anyDynamic parts then 32 else Shape.headSizes parts

def Shape.headSizes : List Shape → Nat
  | [] => 0
  | s :: rest => s.headSize + Shape.headSizes rest

end

def wordAt? (data : Bytes) (offset : Nat) : Option Word :=
  let bs := (data.drop offset).take 32
  if bs.length = 32 then some (BitVec.ofNat 256 (Bytes.toNat bs)) else none

def wordsAt? (data : Bytes) : (count offset : Nat) → Option (List Word)
  | 0, _ => some []
  | count + 1, offset => do
    let w ← wordAt? data offset
    let ws ← wordsAt? data count (offset + 32)
    return w :: ws

def bytesAt? (data : Bytes) (count offset : Nat) : Option Bytes :=
  let bs := (data.drop offset).take count
  if bs.length = count then some bs else none

mutual

def Shape.decode? : Shape → (data : Bytes) → Option Value
  | .word, data => Value.word <$> wordAt? data 0
  | .bytes, data => do
    let n ← wordAt? data 0
    Value.bytes <$> bytesAt? data n.toNat 32
  | .words, data => do
    let n ← wordAt? data 0
    -- more words than there are bytes cannot be there
    if n.toNat ≤ data.length then Value.words <$> wordsAt? data n.toNat 32 else none
  | .tuple parts, data => Value.tuple <$> Shape.decodeAll? parts data 0

def Shape.decodeAll? : List Shape → (data : Bytes) → (offset : Nat) → Option (List Value)
  | [], _, _ => some []
  | s :: rest, data, offset => do
    let v ←
      if s.isDynamic then do
        let pointer ← wordAt? data offset
        if pointer.toNat ≤ data.length then s.decode? (data.drop pointer.toNat) else none
      else s.decode? (data.drop offset)
    let vs ← Shape.decodeAll? rest data (offset + s.headSize)
    return v :: vs

end

end OracleDuty.Abi
