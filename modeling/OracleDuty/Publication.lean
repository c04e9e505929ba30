import OracleDuty.Http.Status
/-!
Publishing files under an identifier of their content: what can go wrong.
-/
namespace OracleDuty.Publication

inductive Error where
  | network (file message : String)
  | refused (file : String) (status : Http.Status) (message : String)
  | unreadable (file message : String)
  | notConfigured (what : String)
deriving DecidableEq

def Error.message : Error → String
  | network file message => s!"Network error while uploading {file}: {message}"
  | refused file status message =>
    s!"Upload of {file} rejected (status {status.text}): {message}"
  | unreadable file message => s!"Failed to parse upload response for {file}: {message}"
  | notConfigured what => s!"Distribution client is not configured: {what}"

end OracleDuty.Publication
