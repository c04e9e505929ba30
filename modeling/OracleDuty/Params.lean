import OracleDuty.Decimal.Shortest
import OracleDuty.Relay.Target
import OracleDuty.Text.Blank
import OracleDuty.Text.Quoted
import OracleDuty.Word
/-!
The parameters that the duties run with, checked as they are read from text.
-/
namespace OracleDuty

inductive TreeMode where
  | download
  | generate
deriving DecidableEq, Inhabited

namespace TreeMode

def name : TreeMode → String
  | download => "download"
  | generate => "generate"

def all : List TreeMode := [download, generate]

def ofName? (s : String) : Option TreeMode := all.find? fun m => m.name == s

end TreeMode

/-- Fee caps of every transaction; a cap that is not set is left to the client. -/
structure FeeCaps where
  maxFeePerGas : Option Wei
  maxPriorityFeePerGas : Option Wei
deriving DecidableEq

inductive Params.Error where
  | notAFee (name : String) (gwei : Float)
  | badAddress (name reason : String)
  | missingServiceName

def Params.Error.message : Params.Error → String
  | notAFee name gwei =>
    s!"Configuration error: {name} must be a non negative number, got {Decimal.plainText gwei}"
  | badAddress name reason => s!"Configuration error: invalid {name}: {reason}"
  | missingServiceName => "Configuration error: otel_service_name is required"

namespace Params

/-- A fee of gwei in wei, rounded to the nearest with halves away from zero; a fee beyond 128 bits is
the largest one. -/
def weiOfGwei (name : String) (gwei : Float) : Except Error Wei :=
  if !gwei.isFinite || gwei < 0 then .error (.notAFee name gwei)
  else
    let b := Decimal.Binary.ofBits (gwei * 1e9).round.toBits
    let wei := b.mantissa * Nat.pow 2 b.exponent.toNat / Nat.pow 2 (-b.exponent).toNat
    .ok (BitVec.ofNat 128 (min wei (Nat.pow 2 128 - 1)))

def feeCaps (maxFee maxPriorityFee : Option Float) : Except Error FeeCaps := do
  let wei (name : String) : Option Float → Except Error (Option Wei)
    | some gwei => some <$> weiOfGwei name gwei
    | none => .ok none
  return ⟨← wei "max fee" maxFee, ← wei "max priority fee" maxPriorityFee⟩

def firstBadByte (bs : Bytes) : Option (Nat × UInt8) :=
  ((bs.zipIdx).find? fun (b, _) => (Hex.value? (Char.ofNat b.toNat)).isNone).map fun (b, i) => (i, b)

def addressOf (name text : String) : Except Error Address :=
  let digits := match Bytes.ofString text with
    | 0x30 :: 0x78 :: rest => rest
    | 0x30 :: 0x58 :: rest => rest
    | bs => bs
  if digits.length % 2 = 1 then .error (.badAddress name "odd number of digits")
  else if digits.length ≠ 40 then .error (.badAddress name "invalid string length")
  else match firstBadByte digits, Hex.decode? (digits.map fun b => Char.ofNat b.toNat) with
    | some (i, b), _ =>
      .error (.badAddress name s!"invalid character {quoteByte b} at position {i}")
    | none, some bs => .ok (BitVec.ofNat 160 (Bytes.toNat bs))
    | none, none => .error (.badAddress name "invalid string length")
where
  quoteByte (b : UInt8) : String :=
    let c := Char.ofNat b.toNat
    let inside := if c == mark then ['\\', mark] else if c == '"' then ['"'] else Text.quotedChar c
    String.ofList (mark :: inside ++ [mark])
  mark : Char := Char.ofNat 39

/-- The configured messengers in the order of targets; an address that is blank counts as none. -/
def messengers (addresses : Relay.Target → Option String) :
    Except Error (List (Relay.Target × Address)) :=
  let configured := Relay.Target.all.filterMap fun t =>
    match addresses t with
    | some a => if Text.isBlankText a then none else some (t, a)
    | none => none
  configured.mapM fun (t, a) => do
    return (t, ← addressOf (t.name ++ " messenger address") a)

def twapPool (address : Option String) : Except Error (Option Address) :=
  match address with
  | some a => some <$> addressOf "TWAP pool address" a
  | none => .ok none

def storageAddress (address : String) : Except Error Address :=
  addressOf "storage contract address" address

def serviceName (name : Option String) : Except Error String :=
  match name with
  | some n => .ok n
  | none => .error .missingServiceName

end OracleDuty.Params
