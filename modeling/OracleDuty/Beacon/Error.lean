import OracleDuty.Http.Status
/-!
What can go wrong when a beacon node is asked.
-/
namespace OracleDuty.Beacon

inductive Error where
  | network (operation message : String)
  | refused (operation : String) (status : Http.Status) (message : String)
  | unreadable (operation message : String)
  | badUrl (operation message : String)
deriving DecidableEq

def Error.message : Error → String
  | network operation message => s!"Network error during {operation}: {message}"
  | refused operation status message =>
    s!"Beacon API error during {operation} (status {status.text}): {message}"
  | unreadable operation message => s!"Failed to parse response during {operation}: {message}"
  | badUrl operation message => s!"Failed to build URL for {operation}: {message}"

end OracleDuty.Beacon
