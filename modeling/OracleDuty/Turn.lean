import OracleDuty.Word
/-!
Members of the oracle set take turns of consecutive blocks.
-/
namespace OracleDuty

structure Member where
  address : Address
  joinedTime : UInt64
deriving DecidableEq

namespace Turn

def blocksPerTurn : UInt64 := 75

/-- The index of the member whose turn it is at `block`; nobody's when turns have no blocks or there
are no members. -/
def selected? (block blocksPerTurn count : UInt64) : Option UInt64 :=
  if blocksPerTurn = 0 ∨ count = 0 then none else some (block / blocksPerTurn % count)

def isMine (index block blocksPerTurn count : UInt64) : Bool :=
  selected? block blocksPerTurn count == some index

/-- The first position of `address` in the list of members. -/
def indexOf? (members : List Member) (address : Address) : Option UInt64 :=
  (members.findIdx? fun m => m.address == address).map UInt64.ofNat

end Turn

end OracleDuty
