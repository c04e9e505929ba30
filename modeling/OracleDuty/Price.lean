import OracleDuty.Word
/-!
The price of a pool's base token from the time weighted average of its ticks.
-/
namespace OracleDuty.Price

def window : UInt32 := 43200

inductive Error where
  | missingObservations (count : Nat)
  | emptyWindow
deriving DecidableEq

def Error.message : Error → String
  | missingObservations count => s!"Expected 2 tick cumulatives, got {count}"
  | emptyWindow => "TWAP window must be non-zero"

/-- The average tick between two cumulatives, rounded towards negative infinity. The quotient is
kept in its low 64 bits. -/
def averageTick (cumulatives : List Int64) (window : UInt32) : Except Error Int64 :=
  match cumulatives with
  | [oldest, newest] =>
    if window = 0 then .error .emptyWindow
    else .ok (Int64.ofInt ((newest.toInt - oldest.toInt) / (window.toNat : Int)))
  | other => .error (.missingObservations other.length)

def scale : Nat := 1000000000000000000

def saturate (n : Nat) : Word := BitVec.ofNat 256 (min n (Nat.pow 2 256 - 1))

/-- `10¹⁸ * 10000 ^ tick / 10001 ^ tick`. For a tick that is not negative the ratio of the two powers
is rounded down first and then inverted; for a negative tick the reciprocal is exact before its one
rounding. -/
def ofTick (tick : Int64) : Word :=
  let e := tick.toInt.natAbs
  let price :=
    if 0 ≤ tick.toInt then scale * scale / (Nat.pow 10001 e * scale / Nat.pow 10000 e)
    else scale * Nat.pow 10001 e / Nat.pow 10000 e
  saturate price

end OracleDuty.Price
