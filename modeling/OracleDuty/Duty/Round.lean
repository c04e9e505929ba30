import OracleDuty.Controller
import OracleDuty.Duty.RelayPrices
import OracleDuty.Duty.SubmitPrices
import OracleDuty.Duty.SubmitRewards
/-!
The three tasks of a round, in their order.
-/
namespace OracleDuty.Duty

def tasks (s : Settings) : List (Task Request Answer) := [
  ⟨RelayPrices.name, fun state => do
    RelayPrices.run s state
    return none⟩,
  ⟨SubmitPrices.name, SubmitPrices.run s⟩,
  ⟨SubmitRewards.name, SubmitRewards.run s⟩]

def round (s : Settings) (c : Controller) : Foreground Request Answer Controller :=
  c.tick NetworkState.load (tasks s)

end OracleDuty.Duty
