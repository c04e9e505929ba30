import OracleDuty.Bytes
import OracleDuty.Url
/-!
Hosts of locators. Names are in lower case, an address is written by four numbers however it was given, and an address
of eight pieces stands in brackets with the longest run of zeros left out.
-/
namespace OracleDuty.Url

/-! ### Texts taken apart -/

def splitAtAny (isMark : Char → Bool) (cs : List Char) : List Char × List Char :=
  cs.span fun c => !isMark c

def splitOn (isMark : Char → Bool) : List Char → List (List Char)
  | [] => [[]]
  | c :: rest =>
    if isMark c then [] :: splitOn isMark rest
    else match splitOn isMark rest with
      | [] => [[c]]
      | piece :: pieces => (c :: piece) :: pieces

/-! ### Addresses of four numbers -/

def hostNumber? : List Char → Option Nat
  | [] => none
  | '0' :: 'x' :: rest => Hex.number? 16 rest
  | '0' :: rest => Hex.number? 8 rest
  | cs => Hex.number? 10 cs

def endsInNumber (labels : List (List Char)) : Bool :=
  match labels.getLast? with
  | some last => (last ≠ [] && last.all Char.isDigit) || (last.take 2 == ['0', 'x'] && (hostNumber? last).isSome)
  | none => false

/-- The host of an address of one to four numbers; the last number fills the bytes that are left. -/
def addressHost? (labels : List (List Char)) : Option String := do
  guard (labels.length ≤ 4)
  let numbers ← labels.mapM hostNumber?
  let last ← numbers.getLast?
  guard (numbers.dropLast.all (· < 256))
  let left := 5 - numbers.length
  guard (last < Nat.pow 256 left)
  let bytes := numbers.dropLast ++ (Bytes.bigEndian left last).map UInt8.toNat
  return ".".intercalate (bytes.map toString)

def labelsOf (cs : List Char) : List (List Char) :=
  let labels := splitOn (· == '.') cs
  if labels.length > 1 && labels.getLast? == some [] then labels.dropLast else labels

/-! ### Addresses of eight pieces -/

def piece? (cs : List Char) : Option Nat :=
  if cs ≠ [] ∧ cs.length ≤ 4 then Hex.number? 16 cs else none

def byte? : List Char → Option Nat
  | [] => none
  | '0' :: _ :: _ => none
  | cs => (Hex.number? 10 cs).filter (· < 256)

def lastPieces? (cs : List Char) : Option (List Nat) :=
  if cs.contains '.' then
    match (splitOn (· == '.') cs).mapM byte? with
    | some [a, b, c, d] => some [256 * a + b, 256 * c + d]
    | _ => none
  else (piece? cs).map fun p => [p]

def pieces? : List (List Char) → Option (List Nat)
  | [] => some []
  | [last] => lastPieces? last
  | group :: groups => do
    let p ← piece? group
    let ps ← pieces? groups
    return p :: ps

def groupsOf (cs : List Char) : List (List Char) := if cs = [] then [] else splitOn (· == ':') cs

def atGap? : List Char → Option (List Char × List Char)
  | ':' :: ':' :: rest => some ([], rest)
  | c :: rest => (atGap? rest).map fun (front, back) => (c :: front, back)
  | [] => none

/-- An address of eight pieces; two colons in a row stand for the zeros that are left out, at least one. -/
def address? (cs : List Char) : Option (List Nat) :=
  match atGap? cs with
  | none => (pieces? (groupsOf cs)).filter (·.length = 8)
  | some (front, back) => do
    let front ← (groupsOf front).mapM piece?
    let back ← pieces? (groupsOf back)
    guard (front.length + back.length < 8)
    return front ++ List.replicate (8 - (front.length + back.length)) 0 ++ back

structure Run where
  start : Nat
  length : Nat

def longestRun : List Nat → Run
  | [] => ⟨0, 0⟩
  | p :: rest =>
    let own := ((p :: rest).takeWhile (· == 0)).length
    let later := longestRun rest
    if later.length ≤ own then ⟨0, own⟩ else ⟨later.start + 1, later.length⟩

def listed (pieces : List Nat) : List Char := [':'].intercalate (pieces.map (Nat.toDigits 16))

/-- The text of an address. A single zero is not left out. -/
def addressChars (pieces : List Nat) : List Char :=
  let run := longestRun pieces
  if run.length < 2 then listed pieces
  else listed (pieces.take run.start) ++ ':' :: ':' :: listed (pieces.drop (run.start + run.length))

def bracketed? (cs : List Char) : Option String := do
  guard (cs.getLast? = some ']')
  let pieces ← address? cs.dropLast
  return String.ofList ('[' :: (addressChars pieces ++ [']']))

/-! ### Hosts -/

def forbiddenInHost (c : Char) : Bool :=
  c.toNat ≤ 0x20 || 0x7E < c.toNat || "#/:<>?@[\\]^|%".contains c

def unescaped : List Char → List Char
  | '%' :: h :: l :: rest =>
    match Hex.value? h, Hex.value? l with
    | some high, some low => Char.ofNat (16 * high + low) :: unescaped rest
    | _, _ => '%' :: unescaped (h :: l :: rest)
  | c :: rest => c :: unescaped rest
  | [] => []

/-- The host of a special locator. Names in letters beyond ASCII are not read. -/
def domain? : List Char → Option String
  | '[' :: rest => bracketed? rest
  | cs => do
    let cs := (unescaped cs).map Char.toLower
    guard (cs ≠ [] ∧ !cs.any forbiddenInHost)
    if endsInNumber (labelsOf cs) then addressHost? (labelsOf cs) else return String.ofList cs

def opaqueHost? : List Char → Option String
  | '[' :: rest => bracketed? rest
  | cs => if cs.any forbiddenInHost then none else some (String.ofList cs)

end OracleDuty.Url
