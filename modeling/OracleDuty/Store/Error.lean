import OracleDuty.Disk
/-!
What can go wrong with the stored artifacts.
-/
namespace OracleDuty.Store

inductive Operation where
  | read
  | create
  | write
  | rename
deriving DecidableEq

def Operation.name : Operation → String
  | read => "read"
  | create => "create"
  | write => "write"
  | rename => "rename"

inductive Error where
  | io (operation : Operation) (path : Path) (fault : Disk.Fault)
  | unreadable (path : Path)
  | compression (path : Path) (fault : Disk.Fault)
deriving DecidableEq

def Error.message : Error → String
  | io operation path fault => s!"Failed to {operation.name} {path}: {fault.text}"
  | unreadable path => s!"Failed to encode or decode {path}: not an artifact"
  | compression path fault => s!"Failed to compress {path}: {fault.text}"

def Error.chain : Error → List String
  | io operation path fault => [(io operation path fault).message, fault.text]
  | unreadable path => [(unreadable path).message]
  | compression path fault => [(compression path fault).message, fault.text]

end OracleDuty.Store
