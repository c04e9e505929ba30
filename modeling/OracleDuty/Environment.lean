import OracleDuty.Text.Blank
/-!
Variables of the environment, and files that assign them: one assignment a line, with quotes, escapes,
comments, and values of other variables.
-/
namespace OracleDuty

structure Environment where
  entries : List (String × String)
deriving DecidableEq

namespace Environment

def get? (e : Environment) (name : String) : Option String := e.entries.lookup name

def set (e : Environment) (name value : String) : Environment := ⟨(name, value) :: e.entries⟩

/-! ### Logical lines

A quote that is open at the end of a line continues the value on the next one. -/

inductive Position where
  | plain
  | blank
  | escaped
  | single
  | singleEscaped
  | double
  | doubleEscaped
deriving DecidableEq

def singleQuote : Char := Char.ofNat 39

def Position.outside (c : Char) : Position :=
  if c == '\\' then escaped
  else if c == '"' then double
  else if c == singleQuote then single
  else plain

def Position.next (c : Char) : Position → Position
  | plain => if Text.isBlank c && c != '\n' && c != '\r' then blank else outside c
  | blank => outside c
  | escaped => plain
  | single => if c == '\\' then singleEscaped else if c == singleQuote then plain else single
  | singleEscaped => single
  | double => if c == '\\' then doubleEscaped else if c == '"' then plain else double
  | doubleEscaped => double

def Position.isComplete : Position → Bool
  | plain => true
  | blank => true
  | _ => false

def physicalLine (cs : List Char) : List Char × List Char :=
  match cs.span (· != '\n') with
  | (line, _ :: rest) => (line ++ ['\n'], rest)
  | (line, []) => (line, [])

def scanLine : Position → List Char → Position × Option (List Char)
  | p, [] => (p, none)
  | .blank, '#' :: _ => (.blank, some [])
  | p, c :: rest =>
    match scanLine (p.next c) rest with
    | (q, some kept) => (q, some (c :: kept))
    | (q, none) => (q, none)

def chomp (cs : List Char) : List Char :=
  match cs.reverse with
  | '\n' :: '\r' :: rest => rest.reverse
  | '\n' :: rest => rest.reverse
  | _ => cs

def isComment (cs : List Char) : Bool := (Text.skipBlank cs).head? == some '#'

def logicalLines : Nat → Position → (before : List Char) → List Char → List (Option (List Char))
  | 0, _, _, _ => []
  | _, p, before, [] => if before = [] ∧ p.isComplete then [] else [none]
  | fuel + 1, p, before, c :: cs =>
    let (line, rest) := physicalLine (c :: cs)
    let all := before ++ line
    if isComment all then some [] :: logicalLines fuel .plain [] rest
    else match scanLine p line with
      | (_, some kept) => some (before ++ kept) :: logicalLines fuel .plain [] rest
      | (q, none) =>
        if q.isComplete then some (chomp all) :: logicalLines fuel .plain [] rest
        else logicalLines fuel q all rest

/-! ### Assignments -/

inductive Wanted where
  | no
  | bare
  | braced
deriving DecidableEq

structure Reading where
  value : List Char
  single : Bool
  double : Bool
  escaped : Bool
  ended : Bool
  wanted : Wanted
  name : List Char

namespace Reading

def fresh : Reading := ⟨[], false, false, false, false, .no, []⟩

def push (r : Reading) (c : Char) : Reading := { r with value := r.value ++ [c] }

def substitute (lookup : String → String) (r : Reading) : Reading :=
  { r with value := r.value ++ (lookup (String.ofList r.name)).toList, name := [], wanted := .no }

def unescape? (r : Reading) (c : Char) : Option Reading :=
  let r := { r with escaped := false }
  if c == '\\' || c == '"' || c == '$' || c == ' ' || c == singleQuote then some (r.push c)
  else if c == 'n' then some (r.push '\n')
  else none

def inName (lookup : String → String) (r : Reading) (c : Char) : Reading :=
  if c.isAlphanum then { r with name := r.name ++ [c] }
  else match r.wanted with
    | .braced => if c == '\x7d' then r.substitute lookup else { r with name := r.name ++ [c] }
    | _ =>
      if c == '\x7b' && r.name.isEmpty then { r with wanted := .braced }
      else
        let r := r.substitute lookup
        if c == '$' then { r with wanted := .bare } else r.push c

def inSingle (r : Reading) (c : Char) : Reading :=
  if c == singleQuote then { r with single := false } else r.push c

def inDouble (r : Reading) (c : Char) : Reading :=
  if c == '"' then { r with double := false }
  else if c == '\\' then { r with escaped := true }
  else r.push c

def outside (r : Reading) (c : Char) : Reading :=
  if c == singleQuote then { r with single := true }
  else if c == '"' then { r with double := true }
  else if c == '\\' then { r with escaped := true }
  else if c == ' ' || c == '\t' then { r with ended := true }
  else r.push c

def run (lookup : String → String) (r : Reading) : List Char → Option Reading
  | [] => some r
  | c :: rest =>
    if r.ended then
      if c == ' ' || c == '\t' then r.run lookup rest
      else if c == '#' then some r
      else none
    else if r.escaped then (r.unescape? c).bind fun r => r.run lookup rest
    else if r.single then (r.inSingle c).run lookup rest
    else if r.wanted != .no then (r.inName lookup c).run lookup rest
    else if c == '$' then { r with wanted := .bare }.run lookup rest
    else if r.double then (r.inDouble c).run lookup rest
    else (r.outside c).run lookup rest

end Reading

def value? (lookup : String → String) (cs : List Char) : Option String := do
  let r ← Reading.fresh.run lookup cs
  if r.wanted = .braced ∨ r.single ∨ r.double then none
  else return String.ofList (r.value ++ (lookup (String.ofList r.name)).toList)

def name? (cs : List Char) : Option (String × List Char) :=
  match cs with
  | c :: _ =>
    if c.isAlpha || c == '_' then
      let (name, rest) := cs.span fun c => c.isAlphanum || c == '_' || c == '.'
      some (String.ofList name, rest)
    else none
  | [] => none

def afterEquals? : List Char → Option (List Char)
  | '=' :: rest => some (Text.skipBlank rest)
  | _ => none

/-- The name that a line assigns, and the text of its value. The word `export` may stand in front. -/
def target? (cs : List Char) : Option (String × List Char) := do
  let (name, rest) ← name? cs
  match afterEquals? (Text.skipBlank rest) with
  | some value => return (name, value)
  | none =>
    guard (name = "export")
    let (name, rest) ← name? (Text.skipBlank rest)
    return (name, ← afterEquals? (Text.skipBlank rest))

/-- Carries out the assignments of lines up to the first one that is ill-formed. A variable that is set
keeps its value; `assigned` holds what the lines before have assigned. -/
def assign (e : Environment) (assigned : List (String × String)) :
    List (Option (List Char)) → Environment
  | [] => e
  | none :: _ => e
  | some line :: rest =>
    let line := Text.skipBlank line
    if line.isEmpty || line.head? == some '#' then e.assign assigned rest
    else
      let lookup (name : String) : String := ((e.get? name).or (assigned.lookup name)).getD ""
      match target? line with
      | none => e
      | some (name, text) =>
        let value := if text.isEmpty || text.head? == some '#' then some "" else value? lookup text
        match value with
        | none => e
        | some value =>
          let e := if (e.get? name).isSome then e else e.set name value
          e.assign ((name, value) :: assigned) rest

def load (e : Environment) (file : String) : Environment :=
  let cs := match file.toList with
    | '\ufeff' :: rest => rest
    | cs => cs
  e.assign [] (logicalLines (cs.length + 1) .plain [] cs)

def mentioned (file : String) : List String :=
  let words := (file.split fun c => !(c.isAlphanum || c == '_')).toList.map (·.toString)
  (words.filter (· ≠ "")).eraseDups

end Environment

end OracleDuty
