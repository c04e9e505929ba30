import OracleDuty.OrderedMap
/-!
JSON documents. A scalar can have the form of JSON and still denote no value: a number beyond the
doubles, or a text with an unpaired surrogate. Such a scalar is kept as `malformed`, since it matters
only where the document is read for its value.
-/
namespace OracleDuty

/-- A JSON document. Integers are those written without fraction and exponent that fit 64 bits. -/
inductive Json where
  | null
  | bool (value : Bool)
  | integer (value : Int)
  | float (value : Float)
  | string (value : String)
  | array (items : List Json)
  /-- The entries in the order written, keys possibly repeated. -/
  | object (entries : List (String × Json))
  | malformed

namespace Json

instance : Inhabited Json := ⟨null⟩

def maxDepth : Nat := 127

mutual

def sound (levels : Nat) : Json → Bool
  | malformed => false
  | array items => 0 < levels && soundAll (levels - 1) items
  | object entries => 0 < levels && soundEntries (levels - 1) entries
  | _ => true

def soundAll (levels : Nat) : List Json → Bool
  | [] => true
  | j :: rest => sound levels j && soundAll levels rest

def soundEntries (levels : Nat) : List (String × Json) → Bool
  | [] => true
  | (_, j) :: rest => sound levels j && soundEntries levels rest

end

mutual

def canonical : Json → Json
  | array items => array (canonicalAll items)
  | object entries => object (OrderedMap.ofList (canonicalEntries entries)).entries
  | j => j

def canonicalAll : List Json → List Json
  | [] => []
  | j :: rest => canonical j :: canonicalAll rest

def canonicalEntries : List (String × Json) → List (String × Json)
  | [] => []
  | (k, j) :: rest => (k, canonical j) :: canonicalEntries rest

end

def string? : Json → Option String
  | string s => some s
  | _ => none

def uint64? : Json → Option UInt64
  | integer i => if 0 ≤ i ∧ i < (UInt64.size : Int) then some (UInt64.ofNat i.toNat) else none
  | _ => none

def ofUInt64 (n : UInt64) : Json := integer n.toNat

end OracleDuty.Json
