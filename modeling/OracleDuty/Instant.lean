import OracleDuty.Text.Blank
/-!
Instants of universal time with nanoseconds, as calendar dates with a time of day, and their text.

An instant is read from a date, a time of day and an offset, and written in universal time with as few
fraction digits, in groups of three, as it needs. A leap second is a nanosecond count from 10⁹ up in
the last second of a minute.
-/
namespace OracleDuty

def isLeapYear (year : Int) : Bool := year % 4 == 0 && (year % 100 != 0 || year % 400 == 0)

def daysInMonth (year : Int) (month : Nat) : Nat :=
  if month = 2 then (if isLeapYear year then 29 else 28)
  else if month = 4 ∨ month = 6 ∨ month = 9 ∨ month = 11 then 30
  else 31

def isDate (year : Int) (month day : Nat) : Bool :=
  -262143 ≤ year && year ≤ 262142 && 1 ≤ month && month ≤ 12 && 1 ≤ day &&
    day ≤ daysInMonth year month

structure Date where
  year : Int
  month : Nat
  day : Nat
  valid : isDate year month day = true
deriving DecidableEq

namespace Date

def ofNumbers? (year : Int) (month day : Nat) : Option Date :=
  if h : isDate year month day = true then some ⟨year, month, day, h⟩ else none

def next? (d : Date) : Option Date :=
  if d.day < daysInMonth d.year d.month then ofNumbers? d.year d.month (d.day + 1)
  else if d.month < 12 then ofNumbers? d.year (d.month + 1) 1
  else ofNumbers? (d.year + 1) 1 1

def previous? (d : Date) : Option Date :=
  if 1 < d.day then ofNumbers? d.year d.month (d.day - 1)
  else if 1 < d.month then ofNumbers? d.year (d.month - 1) (daysInMonth d.year (d.month - 1))
  else ofNumbers? (d.year - 1) 12 31

end Date

/-- Whether the numbers are a time of day; only the last second of a minute can be a leap second. -/
def isTime (second nano : Nat) : Bool :=
  second < 86400 && nano < 2000000000 && (nano < 1000000000 || second % 60 == 59)

structure Instant where
  date : Date
  second : Nat
  nano : Nat
  valid : isTime second nano = true
deriving DecidableEq

namespace Instant

def ofParts? (date : Date) (second nano : Nat) : Option Instant :=
  if h : isTime second nano = true then some ⟨date, second, nano, h⟩ else none

def ofLocal? (date : Date) (second nano : Nat) (offset : Int) : Option Instant :=
  let shifted : Int := second - offset
  if shifted < 0 then date.previous?.bind fun d => ofParts? d (shifted + 86400).toNat nano
  else if 86400 ≤ shifted then date.next?.bind fun d => ofParts? d (shifted - 86400).toNat nano
  else ofParts? date shifted.toNat nano

def padded (width n : Nat) : List Char :=
  let digits := Nat.toDigits 10 n
  List.replicate (width - digits.length) '0' ++ digits

def yearChars (year : Int) : List Char :=
  if 0 ≤ year ∧ year ≤ 9999 then padded 4 year.toNat
  else (if year < 0 then '-' else '+') :: padded 4 year.natAbs

def fractionChars (nano : Nat) : List Char :=
  if nano = 0 then []
  else if nano % 1000000 = 0 then '.' :: padded 3 (nano / 1000000)
  else if nano % 1000 = 0 then '.' :: padded 6 (nano / 1000)
  else '.' :: padded 9 nano

def chars (t : Instant) : List Char :=
  let leap := 1000000000 ≤ t.nano
  let second := t.second % 60 + if leap then 1 else 0
  let nano := if leap then t.nano - 1000000000 else t.nano
  yearChars t.date.year ++ '-' :: padded 2 t.date.month ++ '-' :: padded 2 t.date.day ++
    'T' :: padded 2 (t.second / 3600) ++ ':' :: padded 2 (t.second / 60 % 60) ++
    ':' :: padded 2 second ++ fractionChars nano ++ ['Z']

def text (t : Instant) : String := String.ofList t.chars

/-! ### Reading -/

def digits? (width : Nat) (cs : List Char) : Option (Nat × List Char) :=
  let ds := (cs.take width).takeWhile Char.isDigit
  if ds.isEmpty then none else some (Nat.ofDigitChars 10 ds 0, cs.drop ds.length)

def field? (cs : List Char) : Option (Nat × List Char) := digits? 2 (Text.skipBlank cs)

def year? (cs : List Char) : Option (Int × List Char) :=
  match Text.skipBlank cs with
  | '-' :: rest => (digits? rest.length rest).map fun (n, rest) => (-(n : Int), rest)
  | '+' :: rest => (digits? rest.length rest).map fun (n, rest) => ((n : Int), rest)
  | cs => (digits? 4 cs).map fun (n, rest) => ((n : Int), rest)

def separator? (c : Char) (cs : List Char) : Option (List Char) :=
  match Text.skipBlank cs with
  | d :: rest => if d = c then some rest else none
  | [] => none

/-- Digits after a point as nanoseconds, those after the ninth ignored; none without a point. -/
def fraction? (cs : List Char) : Option (Nat × List Char) :=
  match cs with
  | '.' :: rest =>
    let ds := rest.takeWhile Char.isDigit
    if ds.isEmpty then none
    else
      let kept := ds.take 9
      some (Nat.ofDigitChars 10 kept 0 * Nat.pow 10 (9 - kept.length), rest.dropWhile Char.isDigit)
  | cs => some (0, cs)

def twoDigits? (top : Char) (cs : List Char) : Option (Nat × List Char) :=
  match cs with
  | a :: b :: rest =>
    if a.isDigit && b.isDigit && a ≤ top then some (Nat.ofDigitChars 10 [a, b] 0, rest) else none
  | _ => none

def utc? : List Char → Option (List Char)
  | u :: t :: c :: rest =>
    if u.toUpper == 'U' && t.toUpper == 'T' && c.toUpper == 'C' then some rest else none
  | _ => none

def offset? (cs : List Char) : Option (Int × List Char) :=
  let signed (negative : Bool) (rest : List Char) : Option (Int × List Char) := do
    let (hours, rest) ← twoDigits? '9' rest
    let rest := rest.dropWhile fun c => c == ':' || Text.isBlank c
    let (minutes, rest) ← twoDigits? '5' rest
    let seconds : Int := hours * 3600 + minutes * 60
    if seconds < 86400 then return (if negative then -seconds else seconds, rest) else none
  match utc? cs, cs with
  | some rest, _ => some (0, rest)
  | none, 'Z' :: rest => some (0, rest)
  | none, 'z' :: rest => some (0, rest)
  | none, '+' :: rest => signed false rest
  | none, '-' :: rest => signed true rest
  | none, '\u2212' :: rest => signed true rest
  | none, _ => none

def ofChars? (cs : List Char) : Option Instant := do
  let (year, cs) ← year? cs
  let cs ← separator? '-' cs
  let (month, cs) ← field? cs
  let cs ← separator? '-' cs
  let (day, cs) ← field? cs
  let cs ← match cs with
    | 'T' :: rest => some rest
    | 't' :: rest => some rest
    | ' ' :: rest => some rest
    | _ => none
  let (hour, cs) ← field? cs
  let cs ← separator? ':' cs
  let (minute, cs) ← field? cs
  let cs ← separator? ':' cs
  let (second, cs) ← field? cs
  let (nano, cs) ← fraction? cs
  let (offset, cs) ← offset? (Text.skipBlank cs)
  guard (Text.skipBlank cs).isEmpty
  guard (hour ≤ 23 ∧ minute ≤ 59 ∧ second ≤ 60)
  let date ← Date.ofNumbers? year month day
  let (second, nano) := if second = 60 then (59, nano + 1000000000) else (second, nano)
  ofLocal? date (hour * 3600 + minute * 60 + second) nano offset

def ofText? (s : String) : Option Instant := ofChars? s.toList

end OracleDuty.Instant
