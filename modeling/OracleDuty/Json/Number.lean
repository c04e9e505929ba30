import OracleDuty.Json
import OracleDuty.Decimal.Shortest
/-!
The numbers of a JSON document: how a lexeme is read, and how a double is written.

A lexeme without fraction and exponent that fits 64 bits is an integer. Every other one is a double:
the digits that fit 64 bits are taken as an integer and scaled by one power of ten, so the last bit
may differ from the nearest double.
-/
namespace OracleDuty.Json

structure Lexeme where
  negative : Bool
  integral : List Char
  fraction : List Char
  /-- The sign and digits after `e`; no digits when there is no exponent. -/
  exponentNegative : Bool
  exponent : List Char

namespace Lexeme

/-- Takes digits in while the significand fits 64 bits; gives the rest unread. -/
def accumulate (significand : Nat) : List Char → Nat × List Char
  | [] => (significand, [])
  | c :: rest =>
    let next := 10 * significand + (c.toNat - 48)
    if next < UInt64.size then accumulate next rest else (significand, c :: rest)

def scaled (l : Lexeme) : Nat × Int :=
  let (s, left) := accumulate 0 l.integral
  if left.isEmpty then
    let (s', unread) := accumulate s l.fraction
    (s', -((l.fraction.length - unread.length : Nat) : Int))
  else (s, left.length)

def powerOfTen (n : Nat) : Float := Float.ofScientific 1 false n

/-- Scales by a power of ten; `none` beyond the largest double. Powers below the smallest are reached
in steps of 308 places. -/
def scale : (fuel : Nat) → Float → Int → Option Float
  | 0, _, _ => none
  | fuel + 1, x, e =>
    if e.natAbs ≤ 308 then
      if 0 ≤ e then
        let y := x * powerOfTen e.natAbs
        if y.isInf then none else some y
      else some (x / powerOfTen e.natAbs)
    else if x == 0 then some x
    else if 0 ≤ e then none
    else scale fuel (x / powerOfTen 308) (e + 308)

def toFloat? (l : Lexeme) : Option Float :=
  let (s, shift) := l.scaled
  let written : Int := Nat.ofDigitChars 10 l.exponent 0
  let magnitude :=
    if written ≤ 2147483647 then
      scale 100 (UInt64.ofNat s).toFloat
        (max (-2147483648) (min 2147483647 (if l.exponentNegative then shift - written else shift + written)))
    else if s ≠ 0 ∧ !l.exponentNegative then none
    else some 0
  magnitude.map fun x => if l.negative then -x else x

def toJson (l : Lexeme) : Json :=
  let n := Nat.ofDigitChars 10 l.integral 0
  if l.fraction.isEmpty ∧ l.exponent.isEmpty ∧ !l.negative ∧ n < UInt64.size then .integer n
  else if l.fraction.isEmpty ∧ l.exponent.isEmpty ∧ l.negative ∧ 0 < n ∧ n ≤ 0x8000000000000000 then
    .integer (-(n : Int))
  else match l.toFloat? with
    | some x => .float x
    | none => .malformed

end Lexeme

/-- The text of a finite double: positional from `1e-5` up to `1e16`, with `.0` when integral, and in
exponential form elsewhere. -/
def floatText (x : Float) : String :=
  let sign := if Decimal.isNegative x then "-" else ""
  let s := Decimal.shortest x.toBits
  let body := if -5 ≤ s.leading ∧ s.leading < 16 then s.positional ".0" else s.exponential
  sign ++ body

end OracleDuty.Json
