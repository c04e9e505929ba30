/-!
The shortest decimal text of a double: of all decimals that read back as the double, those with the
fewest digits, and of these the nearest one.
-/
namespace OracleDuty.Decimal

structure Scientific where
  digits : Nat
  exponent : Int
deriving DecidableEq

structure Binary where
  mantissa : Nat
  exponent : Int
deriving DecidableEq

namespace Binary

def ofBits (bits : UInt64) : Binary :=
  let fraction : Nat := bits.toNat % Nat.pow 2 52
  let biased : Nat := bits.toNat / Nat.pow 2 52 % Nat.pow 2 11
  if biased = 0 then ⟨fraction, -1074⟩ else ⟨fraction + Nat.pow 2 52, (biased : Int) - 1075⟩

def nearerBelow (b : Binary) : Bool := b.mantissa == Nat.pow 2 52 && -1074 < b.exponent

def lower (b : Binary) : Nat := if b.nearerBelow then 4 * b.mantissa - 1 else 4 * b.mantissa - 2

def upper (b : Binary) : Nat := 4 * b.mantissa + 2

def numerator (b : Binary) (quarters : Nat) : Nat := quarters * Nat.pow 2 (b.exponent - 2).toNat

def denominator (b : Binary) : Nat := Nat.pow 2 (2 - b.exponent).toNat

end Binary

def shiftUp (num den : Nat) : (fuel k : Nat) → Nat
  | 0, k => k
  | fuel + 1, k => if den ≤ num * Nat.pow 10 k then k else shiftUp num den fuel (k + 1)

def leadingExponent (num den : Nat) : Int :=
  if den ≤ num then ((Nat.toDigits 10 (num / den)).length : Int) - 1
  else -(shiftUp num den 400 0 : Int)

def compareScaled (c : Nat) (g : Int) (num den : Nat) : Ordering :=
  compare (c * Nat.pow 10 g.toNat * den) (num * Nat.pow 10 (-g).toNat)

/-- Whether `c * 10 ^ g` rounds to the double. The ends round to it when its mantissa is even. -/
def readsBack (b : Binary) (c : Nat) (g : Int) : Bool :=
  let low := compareScaled c g (b.numerator b.lower) b.denominator
  let high := compareScaled c g (b.numerator b.upper) b.denominator
  let even := b.mantissa % 2 == 0
  (low == .gt || (even && low == .eq)) && (high == .lt || (even && high == .eq))

def candidate? (b : Binary) (g : Int) : Option Nat :=
  let num := b.numerator (4 * b.mantissa)
  let den := b.denominator
  let below := num * Nat.pow 10 (-g).toNat / (den * Nat.pow 10 g.toNat)
  match readsBack b below g, readsBack b (below + 1) g with
  | true, false => some below
  | false, true => some (below + 1)
  | true, true =>
    -- twice the value against the sum of both neighbours
    match compareScaled (2 * below + 1) g (2 * num) den with
    | .gt => some below
    | .lt => some (below + 1)
    | .eq => some (if below % 2 = 0 then below else below + 1)
  | false, false => none

def trimZeros : (fuel digits : Nat) → Int → Scientific
  | 0, d, e => ⟨d, e⟩
  | fuel + 1, d, e => if d ≠ 0 ∧ d % 10 = 0 then trimZeros fuel (d / 10) (e + 1) else ⟨d, e⟩

def search (b : Binary) (leading : Int) : (fuel digits : Nat) → Scientific
  | 0, _ => ⟨0, 0⟩
  | fuel + 1, digits =>
    let g := leading - (digits - 1 : Nat)
    match candidate? b g with
    | some c => trimZeros 20 c g
    | none => search b leading fuel (digits + 1)

def shortest (bits : UInt64) : Scientific :=
  let b := Binary.ofBits bits
  if b.mantissa = 0 then ⟨0, 0⟩
  else search b (leadingExponent (b.numerator (4 * b.mantissa)) b.denominator) 17 1

namespace Scientific

/-- Digits with a point, without exponent; `whole` stands after an integral number. -/
def positional (s : Scientific) (whole : String) : String :=
  let digits := Nat.toDigits 10 s.digits
  if 0 ≤ s.exponent then
    String.ofList (digits ++ List.replicate s.exponent.toNat '0') ++ whole
  else
    let places := (-s.exponent).toNat
    let padded := List.replicate (places + 1 - digits.length) '0' ++ digits
    let split := padded.length - places
    String.ofList (padded.take split ++ '.' :: padded.drop split)

def exponential (s : Scientific) : String :=
  let digits := Nat.toDigits 10 s.digits
  let e := s.exponent + (digits.length - 1 : Nat)
  let sign := if e < 0 then "-" else "+"
  let tail := if digits.length = 1 then [] else '.' :: digits.drop 1
  s!"{String.ofList (digits.take 1 ++ tail)}e{sign}{e.natAbs}"

def leading (s : Scientific) : Int := s.exponent + ((Nat.toDigits 10 s.digits).length - 1 : Nat)

end Scientific

def isNegative (x : Float) : Bool := x.toBits >>> 63 == 1

def plainText (x : Float) : String :=
  if x.isNaN then "NaN"
  else
    let sign := if isNegative x then "-" else ""
    if x.isInf then sign ++ "inf" else sign ++ (shortest x.toBits).positional ""

end OracleDuty.Decimal
