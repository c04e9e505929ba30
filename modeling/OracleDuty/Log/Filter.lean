import OracleDuty.Journal
/-!
Which events are shown, and in which format. A filter is a list of directives: a level for the parts of the
program whose names begin with a text. The most specific directive that concerns a part decides.
-/
namespace OracleDuty.Log

/-- The least level that is shown; `none` shows nothing. -/
abbrev Threshold := Option Level

def Threshold.shows (t : Threshold) (l : Level) : Bool := t.any fun least => least.rank ≤ l.rank

def Threshold.names : List (String × Threshold) := [
  ("off", none), ("error", some .error), ("warn", some .warn), ("info", some .info),
  ("debug", some .debug), ("trace", some .trace),
  ("0", none), ("1", some .error), ("2", some .warn), ("3", some .info), ("4", some .debug),
  ("5", some .trace)]

def Threshold.ofText? (s : String) : Option Threshold := names.lookup (s.map Char.toLower)

structure Directive where
  beginning : Option String
  threshold : Threshold
deriving DecidableEq

namespace Directive

def isNameChar (c : Char) : Bool := c.isAlphanum || "_:-".contains c

/-- Reads one directive: a threshold, a name, or both around `=`. A name alone shows every level. -/
def ofText? (s : String) : Option Directive :=
  match Threshold.ofText? s with
  | some t => some ⟨none, t⟩
  | none =>
    let (name, rest) := s.toList.span (· != '=')
    if name = [] ∨ !name.all isNameChar then none
    else match rest with
      | [] => some ⟨some s, some .trace⟩
      | ['='] => some ⟨some (String.ofList name), some .trace⟩
      | _ :: level => (Threshold.ofText? (String.ofList level)).map fun t => ⟨some (String.ofList name), t⟩

def weight (d : Directive) : Nat :=
  match d.beginning with
  | none => 0
  | some b => b.length + 1

def concerns (d : Directive) (target : String) : Bool :=
  match d.beginning with
  | none => true
  | some b => target.startsWith b

end Directive

/-- Directives; of two that are equally specific the later one decides. -/
structure Filter where
  directives : List Directive
deriving DecidableEq

namespace Filter

def standard : Filter := ⟨[⟨some "watchtower", some .info⟩]⟩

/-- Reads directives between commas, empty ones being ignored; none at all show errors only. -/
def ofText? (s : String) : Option Filter := do
  let texts := (s.split (· == ',')).toList.map (·.toString)
  let ds ← (texts.filter (· ≠ "")).mapM Directive.ofText?
  return ⟨if ds.isEmpty then [⟨none, some .error⟩] else ds⟩

def decisive? (f : Filter) (target : String) : Option Directive :=
  (f.directives.filter (·.concerns target)).foldl (fun best d =>
    if best.any fun b => d.weight < b.weight then best else some d) none

def shows (f : Filter) (level : Level) (target : String) : Bool :=
  (f.decisive? target).any fun d => Threshold.shows d.threshold level

/-- The event of a line with the spans around it, if it is shown. Spans are opened by the controller, and
are left out where its `INFO` events are. -/
def event? (f : Filter) (l : Line) : Option (List SpanFields × Event) :=
  match l.event? with
  | some e =>
    if f.shows e.level e.target then
      some (if f.shows .info Source.controller.target then l.spans else [], e)
    else none
  | none => none

end Filter

inductive Format where
  | json
  | console
deriving DecidableEq

structure Output where
  filter : Filter
  format : Format
deriving DecidableEq

namespace Output

def ofEnvironment (environment : String → Option String) : Output where
  filter := ((environment "RUST_LOG").bind Filter.ofText?).getD .standard
  format := if environment "LOG_FORMAT" = some "json" then .json else .console

end Output

end OracleDuty.Log
