import OracleDuty.Bytes
import OracleDuty.OrderedMap
/-!
The file system as the node uses it: whole files are read and written, directories are created with their
parents, and a file is renamed over another in one step. A disk is a finite tree of nodes, kept by their
places; a place is the list of names on the way from the root, as one text.
-/
namespace OracleDuty

abbrev Path := String

namespace Path

def join (directory : Path) (name : String) : Path :=
  if directory.isEmpty then name
  else if directory.endsWith "/" then directory ++ name
  else directory ++ "/" ++ name

def pieces : List Char → List (List Char)
  | [] => [[]]
  | c :: rest =>
    if c = '/' then [] :: pieces rest
    else match pieces rest with
      | [] => [[c]]
      | piece :: others => (c :: piece) :: others

def names (p : Path) : List String :=
  ((pieces p.toList).filter (· ≠ [])).map String.ofList

def isAbsolute (p : Path) : Bool := p.startsWith "/"

def fileName (p : Path) : String := p.names.getLast?.getD ""

end Path

namespace Disk

inductive Fault where
  | notFound
  | exists
  | notDirectory
  | isDirectory
  | other (text : String)
deriving DecidableEq

def Fault.text : Fault → String
  | notFound => "No such file or directory (os error 2)"
  | .exists => "File exists (os error 17)"
  | notDirectory => "Not a directory (os error 20)"
  | isDirectory => "Is a directory (os error 21)"
  | other text => text

inductive Request where
  | read (path : Path)
  | createDirectories (path : Path)
  | write (path : Path) (content : Bytes)
  | rename (source target : Path)
deriving DecidableEq

abbrev Request.Result : Request → Type
  | read _ => Bytes
  | _ => Unit

inductive Node where
  | file (content : Bytes)
  | directory
deriving DecidableEq

end Disk

structure Disk where
  nodes : OrderedMap String Disk.Node
  /-- The names that lead from the root to the working directory, the last one first. -/
  home : List String
deriving DecidableEq

namespace Disk

def place (reversed : List String) : String := "/".intercalate reversed.reverse

/-- What is at the end of a list of names, the last name first; the root is a directory. -/
def at? (d : Disk) : (reversed : List String) → Option Node
  | [] => some .directory
  | reversed => d.nodes.get? (place reversed)

/-- Follows names down from a place; all but the last have to be directories. Places are lists of names
with the last one first. -/
def follow (d : Disk) (reversed : List String) : List String → Except Fault (List String)
  | [] => .ok reversed
  | name :: rest =>
    match d.at? reversed with
    | none => .error .notFound
    | some (.file _) => .error .notDirectory
    | some .directory =>
      if name = "." then d.follow reversed rest
      else if name = ".." then d.follow reversed.tail rest
      else d.follow (name :: reversed) rest

def locateFrom (d : Disk) (absolute : Bool) (names : List String) : Except Fault (List String) :=
  d.follow (if absolute then [] else d.home) names

def locate (d : Disk) (p : Path) : Except Fault (List String) := d.locateFrom p.isAbsolute p.names

def put (d : Disk) (reversed : List String) (node : Node) : Disk :=
  { d with nodes := d.nodes.insert (place reversed) node }

def drop (d : Disk) (reversed : List String) : Disk :=
  { d with nodes := d.nodes.erase (place reversed) }

def isDirectory (d : Disk) (absolute : Bool) (names : List String) : Bool :=
  match d.locateFrom absolute names with
  | .ok reversed => d.at? reversed == some .directory
  | .error _ => false

def createDirectory (d : Disk) (absolute : Bool) (names : List String) : Except Fault Disk := do
  let reversed ← d.locateFrom absolute names
  match d.at? reversed with
  | some _ => .error .exists
  | none => .ok (d.put reversed .directory)

/-- Creates a directory; one that is there already will do. -/
def ensureDirectory (d : Disk) (absolute : Bool) (names : List String) : Except Fault Disk :=
  match d.createDirectory absolute names with
  | .ok d => .ok d
  | .error fault => if d.isDirectory absolute names then .ok d else .error fault

/-- Creates a directory, and its parents where one is missing. Names are given with the last one first.
What was created before a fault stays. -/
def createDirectories (d : Disk) (absolute : Bool) :
    (reversed : List String) → Disk × Except Fault Unit
  | [] => (d, .ok ())
  | name :: parents =>
    let names := (name :: parents).reverse
    match d.ensureDirectory absolute names with
    | .ok d => (d, .ok ())
    | .error .notFound =>
      match d.createDirectories absolute parents with
      | (d, .error fault) => (d, .error fault)
      | (d, .ok ()) =>
        match d.ensureDirectory absolute names with
        | .ok d => (d, .ok ())
        | .error fault => (d, .error fault)
    | .error fault => (d, .error fault)

def read (d : Disk) (p : Path) : Except Fault Bytes := do
  match d.at? (← d.locate p) with
  | none => .error .notFound
  | some .directory => .error .isDirectory
  | some (.file content) => .ok content

def write (d : Disk) (p : Path) (content : Bytes) : Except Fault Disk := do
  let reversed ← d.locate p
  match d.at? reversed with
  | some .directory => .error .isDirectory
  | _ => .ok (d.put reversed (.file content))

def rename (d : Disk) (source target : Path) : Except Fault Disk := do
  let old ← d.locate source
  let new ← d.locate target
  match d.at? old, d.at? new with
  | none, _ => .error .notFound
  | some .directory, _ => .error .isDirectory
  | some (.file _), some .directory => .error .isDirectory
  | some (.file content), _ => .ok ((d.drop old).put new (.file content))

def change (d : Disk) : Except Fault Disk → Except Fault Unit × Disk
  | .ok d => (.ok (), d)
  | .error fault => (.error fault, d)

def perform (d : Disk) : (q : Request) → Except Fault q.Result × Disk
  | .read p => (d.read p, d)
  | .createDirectories p => (d.createDirectories p.isAbsolute p.names.reverse).swap
  | .write p content => d.change (d.write p content)
  | .rename source target => d.change (d.rename source target)

end Disk

end OracleDuty
