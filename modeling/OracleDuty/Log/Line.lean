import OracleDuty.Json.Printer
import OracleDuty.Log.Event
/-!
Events as lines of JSON. The fields of the spans an event happens in come first, from the outermost to
the innermost, and the event's own fields win.
-/
namespace OracleDuty.Log

def Value.toJson : Value → Json
  | unsigned n => .ofUInt64 n
  | signed i => .integer i.toInt
  | flag b => .bool b
  | text s => .string s
  | shown s => .string (Text.unquoted s)

structure Content where
  message : Option String
  fields : OrderedMap String Json

namespace Content

def empty : Content := ⟨none, .empty⟩

/-- Takes in a field. A text under the name of the message is the message; a number or a flag never is. -/
def add (c : Content) (f : String × Value) : Content :=
  match f.2.toJson with
  | .string s =>
    if f.1 = messageField then { c with message := some s }
    else { c with fields := c.fields.insert f.1 (.string s) }
  | j => { c with fields := c.fields.insert f.1 j }

end Content

def Event.content (e : Event) : Content := e.told.foldl Content.add .empty

def merge (spans : List SpanFields) (own : OrderedMap String Json) : OrderedMap String Json :=
  let inherited := spans.foldl (fun m s =>
    s.entries.foldl (fun m f => m.insert f.1 (.string f.2)) m) .empty
  own.entries.foldl (fun m f => m.insert f.1 f.2) inherited

def serviceName (target : String) : String :=
  if target.startsWith "watchtower_ethereum_client" then "ETHEREUM"
  else if target.startsWith "watchtower_beacon_client" then "BEACON"
  else if target.startsWith "watchtower" then "-"
  else "EXTERNAL"

structure Stamp where
  timestamp : String
  file : Option String
  lineNumber : Option UInt32

def Stamp.entries (s : Stamp) : List (String × Json) :=
  ("timestamp", .string s.timestamp) ::
    ((s.file.map fun file => ("filename", Json.string file)).toList ++
      (s.lineNumber.map fun n => ("line_number", Json.integer n.toNat)).toList)

/-- An event as a JSON object. There is no `fields` entry when there are no fields. -/
def lineJson (stamp : Option Stamp) (spans : List SpanFields) (e : Event) : Json :=
  let content := e.content
  let fields := (merge spans content.fields).entries
  let own := [("level", Json.string e.level.name), ("target", .string e.target),
    ("service", .string (serviceName e.target))] ++
    (content.message.map fun text => (messageField, Json.string text)).toList
  let stamped := (stamp.map Stamp.entries).getD []
  .object (OrderedMap.ofList
    (stamped ++ own ++ if fields.isEmpty then [] else [("fields", .object fields)])).entries

def line (stamp : Option Stamp) (spans : List SpanFields) (e : Event) : String :=
  (lineJson stamp spans e).render ++ "\n"

end OracleDuty.Log
