import OracleDuty.Duty.Action
import OracleDuty.Submission.Key
/-!
The flags on chain that record what a node has submitted.
-/
namespace OracleDuty.Ledger

open Duty

def hasSubmitted (purpose : Submission.Purpose) (address : Address) (subject : Word)
    (value : Option Word) : Action Bool :=
  ask (Program.request (Request.flag (Submission.key purpose address subject value) none))

end OracleDuty.Ledger
