import OracleDuty.Json.Record
import OracleDuty.Publication
import OracleDuty.Wire
/-!
The service that files are published through.
-/
namespace OracleDuty.Publication

structure Service where
  base : Url
  token : Option String
deriving DecidableEq

def identifier? (j : Json) : Option String := do
  match ← Json.record? ["cid"] j with
  | [some cid] => cid.string?
  | _ => none

def Service.upload (service : Service) (file : String) (content : Bytes) :
    Wire.Action Error String := do
  let some token := service.token
    | throw (.notConfigured "a Web3.Storage API token is required to upload artifacts")
  let some url := service.base.join ["upload"]
    | throw (.network file "relative URL with a cannot-be-a-base base")
  Wire.log .publication .debug "Uploading artifact" [("file_name", .text file),
    ("size", .unsigned (UInt64.ofNat content.length)), ("url", .shown url.text)]
  let response ← Wire.attempt (fun f => .network file f.message) (Wire.send ⟨.post, url,
    [("authorization", "Bearer " ++ token), ("content-type", "application/octet-stream"),
     ("x-name", file)], content⟩)
  if !response.status.isSuccess then throw (.refused file response.status response.text)
  let some cid := response.json?.bind identifier?
    | throw (.unreadable file "unexpected document")
  Wire.log .publication .info "Uploaded artifact" [("file_name", .text file), ("cid", .shown cid)]
  return cid

end OracleDuty.Publication
