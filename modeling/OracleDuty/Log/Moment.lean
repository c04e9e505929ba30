import OracleDuty.Instant
import OracleDuty.Log.Console
import OracleDuty.Log.Filter
/-!
The times that stand in log lines.
-/
namespace OracleDuty.Log

structure Moment where
  milliseconds : Nat
deriving DecidableEq

namespace Moment

/-- The year, month and day that lie `days` after the beginning of 1970. Years are counted from March on, so
that a leap day ends its year, in spans of four hundred years. -/
def calendar (days : Nat) : Nat × Nat × Nat :=
  let fromMarch := days + 719468
  let day := fromMarch % 146097
  let year := (day - day / 1460 + day / 36524 - day / 146096) / 365
  let dayOfYear := day - (365 * year + year / 4 - year / 100)
  let month := (5 * dayOfYear + 2) / 153
  let late := 10 ≤ month
  (400 * (fromMarch / 146097) + year + if late then 1 else 0,
    if late then month - 9 else month + 3, dayOfYear - (153 * month + 2) / 5 + 1)

def text (f : Format) (m : Moment) : String :=
  let second := m.milliseconds / 1000
  let (year, month, day) := calendar (second / 86400)
  let two := Instant.padded 2
  let time := two (second / 3600 % 24) ++ ':' :: two (second / 60 % 60) ++ ':' :: two (second % 60)
  let monthDay := '-' :: two month ++ '-' :: two day
  String.ofList <| match f with
    | .json => Instant.padded 4 year ++ monthDay ++ 'T' :: time ++
        '.' :: Instant.padded 3 (m.milliseconds % 1000) ++ ['Z']
    | .console => two (year % 100) ++ monthDay ++ ' ' :: time

end Moment

def Output.text? (o : Output) (m : Moment) (l : Line) : Option String :=
  (o.filter.event? l).map fun (spans, e) =>
    match o.format with
    | .json => line (some ⟨m.text .json, none, none⟩) spans e
    | .console => Console.line (m.text .console) spans e

end OracleDuty.Log
