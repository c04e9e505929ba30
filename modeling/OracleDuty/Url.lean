/-!
Uniform resource locators: their parts, their text, and the resolution of a relative path.
-/
namespace OracleDuty

structure Url.Authority where
  userInfo : Option String
  host : String
  port : Option Nat
deriving DecidableEq

inductive Url.Path where
  | plain (text : String)
  | segments (texts : List String)
deriving DecidableEq

structure Url where
  scheme : String
  authority : Option Url.Authority
  path : Url.Path
  query : Option String
  fragment : Option String
deriving DecidableEq

namespace Url

def specialPorts : List (String × Option Nat) :=
  [("http", some 80), ("https", some 443), ("ws", some 80), ("wss", some 443), ("ftp", some 21),
   ("file", none)]

def isSpecial (scheme : String) : Bool := (specialPorts.lookup scheme).isSome

def defaultPort (scheme : String) : Option Nat := (specialPorts.lookup scheme).join

def Authority.text (a : Authority) : String :=
  let user := match a.userInfo with
    | some u => u ++ "@"
    | none => ""
  let port := match a.port with
    | some p => ":" ++ toString p
    | none => ""
  user ++ a.host ++ port

def Path.text : Path → String
  | plain text => text
  | segments texts => String.join (texts.map ("/" ++ ·))

def target (u : Url) : String :=
  let query := match u.query with
    | some q => "?" ++ q
    | none => ""
  u.path.text ++ query

def text (u : Url) : String :=
  let authority := match u.authority with
    | some a => "//" ++ a.text
    | none => ""
  let fragment := match u.fragment with
    | some f => "#" ++ f
    | none => ""
  u.scheme ++ ":" ++ authority ++ u.target ++ fragment

def isHttp (u : Url) : Bool := u.scheme == "http" || u.scheme == "https"

def portNumber (u : Url) : Option Nat :=
  match u.authority.bind Authority.port with
  | some p => some p
  | none => defaultPort u.scheme

/-- The locator that a relative path leads to: it takes the place of the last segment, and query and
fragment are dropped. A path without hierarchy leads nowhere. -/
def join (u : Url) (relative : List String) : Option Url :=
  match u.path with
  | .plain _ => none
  | .segments texts =>
    some { u with path := .segments (texts.dropLast ++ relative), query := none, fragment := none }

end Url

end OracleDuty
