import OracleDuty.Generation
import OracleDuty.Wire
/-!
The service that generates rewards trees.
-/
namespace OracleDuty.Generation

structure Service where
  base : Url
deriving DecidableEq

def Service.generate (service : Service) (r : Request) : Wire.Action Error Reply := do
  let some url := service.base.join ["v1", "rewards-trees"]
    | throw (.network r.index "relative URL with a cannot-be-a-base base")
  Wire.log .generation .info "Requesting rewards tree generation"
    [("index", .unsigned r.index), ("intervals_passed", .unsigned r.intervalsPassed)]
  let response ← Wire.attempt (fun f => .network r.index f.message) (Wire.send
    ⟨.post, url, [("content-type", "application/json")], Bytes.ofString r.encode⟩)
  if !response.status.isSuccess then throw (.refused r.index response.status response.text)
  let some reply := response.json?.bind Reply.ofJson?
    | throw (.unreadable r.index "unexpected document")
  MonadExcept.ofExcept (reply.forInterval r.index)

end OracleDuty.Generation
