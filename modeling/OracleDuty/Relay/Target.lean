import OracleDuty.Json
/-!
The chains that receive relayed prices, and their names.
-/
namespace OracleDuty.Relay

inductive Target where
  | optimism
  | polygon
  | arbitrum
  | zkSyncEra
  | base
deriving DecidableEq, Inhabited

namespace Target

def all : List Target := [optimism, polygon, arbitrum, zkSyncEra, base]

def name : Target → String
  | optimism => "optimism"
  | polygon => "polygon"
  | arbitrum => "arbitrum"
  | zkSyncEra => "zk-sync-era"
  | base => "base"

def ofName? (s : String) : Option Target := all.find? fun t => t.name == s

def ofJson? : Json → Option Target
  | .string s => ofName? s
  | .object [(k, .null)] => ofName? k
  | _ => none

end OracleDuty.Relay.Target
