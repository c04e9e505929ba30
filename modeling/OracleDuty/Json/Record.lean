import OracleDuty.Json
import OracleDuty.Decimal
import OracleDuty.Instant
import OracleDuty.Word
/-!
Reading records and their fields out of JSON documents.

A record is an object whose unknown keys are ignored and whose known keys must not repeat, or an array
of its fields in order. Amounts, instants and digests have their own texts.
-/
namespace OracleDuty.Json

abbrev Fields := List (Option Json)

def unique? (entries : List (String × Json)) (key : String) : Option (Option Json) :=
  match entries.filter fun e => e.1 == key with
  | [] => some none
  | [(_, j)] => some (some j)
  | _ => none

/-- The fields named by `keys` of a record given as an object or as an array. In an array a field can
be left out only after all that are given. -/
def record? (keys : List String) : Json → Option Fields
  | object entries => keys.mapM (unique? entries)
  | array items =>
    if items.length ≤ keys.length then
      some (items.map some ++ List.replicate (keys.length - items.length) none)
    else none
  | _ => none

/-- Digits of a number in a base of at most sixteen, with `_` anywhere among them; no digits are zero. -/
def digitsIn? (base : Nat) (cs : List Char) : Option Nat := Hex.number? base (cs.filter (· != '_'))

def amountOf? (cs : List Char) : Option Word :=
  let number := match cs with
    | '0' :: 'x' :: rest => digitsIn? 16 rest
    | '0' :: 'X' :: rest => digitsIn? 16 rest
    | '0' :: 'o' :: rest => digitsIn? 8 rest
    | '0' :: 'O' :: rest => digitsIn? 8 rest
    | '0' :: 'b' :: rest => digitsIn? 2 rest
    | '0' :: 'B' :: rest => digitsIn? 2 rest
    | cs => digitsIn? 10 cs
  number.bind fun n => if n < Nat.pow 2 256 then some (BitVec.ofNat 256 n) else none

def amount? : Json → Option Word
  | string s => amountOf? s.toList
  | _ => none

def decimal? : Json → Option UInt64
  | string s => Decimal.uint64? s
  | _ => none

def digest? : Json → Option Digest
  | string s => Digest.ofText? s
  | array items => do
    let bs ← items.mapM fun
      | integer i => if 0 ≤ i ∧ i < 256 then some (UInt8.ofNat i.toNat) else none
      | _ => none
    Digest.ofBytes? bs
  | _ => none

def instant? : Json → Option Instant
  | string s => Instant.ofText? s
  | _ => none

def map? {κ ν : Type} [KeyOrder κ] (key? : String → Option κ) (value? : Json → Option ν) :
    Json → Option (OrderedMap κ ν)
  | object entries =>
    (entries.mapM fun (k, j) => do return (← key? k, ← value? j)).map OrderedMap.ofList
  | _ => none

end OracleDuty.Json
