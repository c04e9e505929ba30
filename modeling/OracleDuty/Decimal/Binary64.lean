import OracleDuty.Bytes
/-!
Reading doubles from text: digits with an optional point and exponent, or the names of infinity and of
what is not a number.
-/
namespace OracleDuty.Decimal

/-- The largest exponent that is told apart; every double is smaller. -/
def exponentBound : Nat := 100000

def nearest (digits : Nat) (exponent : Int) : Float :=
  let e : Int := max (-exponentBound) (min exponentBound exponent)
  if digits = 0 then 0
  else Float.ofScientific digits (e < 0) e.natAbs

def significand? (cs : List Char) : Option ((Nat × Nat) × List Char) :=
  let whole := cs.takeWhile Char.isDigit
  let rest := cs.dropWhile Char.isDigit
  let (part, rest) := match rest with
    | '.' :: rest => (rest.takeWhile Char.isDigit, rest.dropWhile Char.isDigit)
    | rest => ([], rest)
  if whole.isEmpty && part.isEmpty then none
  else some ((Nat.ofDigitChars 10 (whole ++ part) 0, part.length), rest)

def exponent? (cs : List Char) : Option Int :=
  let magnitude (rest : List Char) : Option Int :=
    if rest ≠ [] ∧ rest.all Char.isDigit then some (Nat.ofDigitChars 10 rest 0) else none
  match cs with
  | [] => some 0
  | c :: rest =>
    if c = 'e' ∨ c = 'E' then
      match rest with
      | '-' :: rest => (magnitude rest).map fun n => -n
      | '+' :: rest => magnitude rest
      | rest => magnitude rest
    else none

def magnitude? (cs : List Char) : Option Float :=
  let lower := String.ofList (cs.map Char.toLower)
  if lower = "inf" ∨ lower = "infinity" then some (1 / 0)
  else if lower = "nan" then some (0 / 0)
  else do
    let ((digits, places), rest) ← significand? cs
    let e ← exponent? rest
    return nearest digits (e - places)

def float? (s : String) : Option Float :=
  match s.toList with
  | '-' :: rest => (magnitude? rest).map fun x => -x
  | '+' :: rest => magnitude? rest
  | cs => magnitude? cs

end OracleDuty.Decimal
