import OracleDuty.Relay.Target
/-!
How a relay of prices can fail.
-/
namespace OracleDuty.Relay

inductive Error where
  | partially (failures : List (Target × String))
  | flagCountMismatch (expected actual : Nat)
deriving DecidableEq

def Error.message : Error → String
  | partially failures =>
    "Failed to relay prices to " ++
      ", ".intercalate (failures.map fun (target, reason) => s!"{target.name} ({reason})")
  | flagCountMismatch expected actual =>
    s!"Rate check returned {actual} staleness flags for {expected} messengers"

end OracleDuty.Relay
