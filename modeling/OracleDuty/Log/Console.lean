import OracleDuty.Log.Line
/-!
Events as lines for a terminal: time, level, task, part of the program and message in colours, with the
event's fields in brackets.
-/
namespace OracleDuty.Log.Console

def reset : String := "\x1b[0m"

def coloured (colour text : String) : String := colour ++ text ++ reset

def timeColour : String := "\x1b[96m"
def messageColour : String := "\x1b[97m"
def taskColour : String := "\x1b[92m"
def dim : String := "\x1b[90m"

def levelColour : Level → String
  | .trace => "\x1b[90m"
  | .debug => "\x1b[34m"
  | .info => "\x1b[32m"
  | .warn => "\x1b[33m"
  | .error => "\x1b[31m"

def pad (width : Nat) (s : String) : String :=
  s ++ String.ofList (List.replicate (width - s.length) ' ')

def taskOf (spans : List SpanFields) : Option String :=
  spans.reverse.findSome? fun s => s.get? "task"

def fieldText (f : String × Value) : String :=
  coloured dim (f.1 ++ "=" ++ Text.unquoted f.2.laidOut)

def messageText (e : Event) : String :=
  ((e.told.filter fun f => f.1 == messageField).getLast?.map fun f => Text.unquoted f.2.laidOut).getD ""

/-- An event as one line; the spans are given from the outermost. -/
def line (time : String) (spans : List SpanFields) (e : Event) : String :=
  let bar := coloured dim "|" ++ " "
  let fields := (e.told.filter fun f => f.1 != messageField).map fieldText
  let bracket := if fields.isEmpty then "" else " (" ++ ", ".intercalate fields ++ ")"
  coloured timeColour time ++ " " ++ bar ++
    coloured (levelColour e.level) (pad 5 e.level.name) ++ " " ++ bar ++
    coloured taskColour (pad 16 ((taskOf spans).getD "-")) ++ " " ++ bar ++
    coloured taskColour (pad 9 (serviceName e.target)) ++ " " ++ bar ++
    coloured messageColour (messageText e) ++ bracket ++ "\n"

end OracleDuty.Log.Console
