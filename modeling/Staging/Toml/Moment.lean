import Staging.Text.Numeral
import Staging.Toml.Value

/-!
Dates and times as TOML writes them.
-/
namespace Staging.Toml
open Text

/-- A number of exactly so many digits at the front of a text, and the text after it. -/
def takeNumber (count : Nat) (cs : List Char) : Option (Nat × List Char) :=
  if (cs.take count).length = count then
    (readNumeral 10 (cs.take count)).map fun n => (n, cs.drop count)
  else none

/-- The text after one of the given characters. -/
def takeOne (allowed : List Char) : List Char → Option (List Char)
  | c :: cs => if c ∈ allowed then some cs else none
  | [] => none

def isLeapYear (year : Nat) : Bool := year % 4 == 0 && (year % 100 != 0 || year % 400 == 0)

def daysIn (year month : Nat) : Nat :=
  if month = 2 then (if isLeapYear year then 29 else 28)
  else if month ∈ [4, 6, 9, 11] then 30
  else 31

def takeDate (cs : List Char) : Option (Date × List Char) := do
  let (year, cs) ← takeNumber 4 cs
  let (month, cs) ← takeNumber 2 (← takeOne ['-'] cs)
  let (day, cs) ← takeNumber 2 (← takeOne ['-'] cs)
  guard (1 ≤ month ∧ month ≤ 12 ∧ 1 ≤ day ∧ day ≤ daysIn year month)
  return (⟨year, month, day⟩, cs)

/-- A fraction of a second; digits past the ninth are dropped. -/
def takeFraction : List Char → Option (Nat × List Char)
  | '.' :: cs => do
    let ds := cs.takeWhile Char.isDigit
    guard (ds ≠ [])
    let n ← readNumeral 10 ((ds ++ List.replicate 9 '0').take 9)
    return (n, cs.dropWhile Char.isDigit)
  | cs => some (0, cs)

/-- Seconds may be left out, and a minute may have a leap second. -/
def takeSeconds : List Char → Option (Nat × Nat × List Char)
  | ':' :: cs => do
    let (second, cs) ← takeNumber 2 cs
    guard (second ≤ 60)
    let (nanosecond, cs) ← takeFraction cs
    return (second, nanosecond, cs)
  | cs => some (0, 0, cs)

def takeTime (cs : List Char) : Option (Time × List Char) := do
  let (hour, cs) ← takeNumber 2 cs
  let (minute, cs) ← takeNumber 2 (← takeOne [':'] cs)
  guard (hour ≤ 23 ∧ minute ≤ 59)
  let (second, nanosecond, cs) ← takeSeconds cs
  return (⟨hour, minute, second, nanosecond⟩, cs)

/-- An offset, which ends the text, if there is any left. -/
def readOffset : List Char → Option (Option Offset)
  | [] => some none
  | ['Z'] => some (some .utc)
  | ['z'] => some (some .utc)
  | c :: cs => do
    let (hours, cs) ← takeNumber 2 cs
    let (minutes, cs) ← takeNumber 2 (← takeOne [':'] cs)
    guard (hours ≤ 23 ∧ minutes ≤ 59 ∧ cs = [])
    let total : Int := hours * 60 + minutes
    if c = '+' then some (some (.minutes total))
    else if c = '-' then some (some (.minutes (-total)))
    else none

def readMoment (cs : List Char) : Option Moment :=
  match takeDate cs with
  | some (date, []) => some { date := some date }
  | some (date, cs) => do
    let (time, cs) ← takeTime (← takeOne ['T', 't', ' '] cs)
    return { date := some date, time := some time, offset := ← readOffset cs }
  | none => do
    let (time, cs) ← takeTime cs
    guard (cs = [])
    return { time := some time }

/-- The digits of a number after zeros that fill up the width. -/
def padded (width n : Nat) : String :=
  let ds := Nat.toDigits 10 n
  String.ofList (List.replicate (width - ds.length) '0' ++ ds)

def Date.render (d : Date) : String :=
  padded 4 d.year ++ "-" ++ padded 2 d.month ++ "-" ++ padded 2 d.day

def Time.render (t : Time) : String :=
  let fraction :=
    if t.nanosecond = 0 then ""
    else "." ++ String.ofList ((padded 9 t.nanosecond).toList.reverse.dropWhile (· == '0')).reverse
  padded 2 t.hour ++ ":" ++ padded 2 t.minute ++ ":" ++ padded 2 t.second ++ fraction

def Offset.render : Offset → String
  | utc => "Z"
  | minutes n =>
    (if n < 0 then "-" else "+") ++ padded 2 (n.natAbs / 60) ++ ":" ++ padded 2 (n.natAbs % 60)

/-- The written form with a `T` between date and time. -/
def Moment.render (m : Moment) : String :=
  let date := (m.date.map Date.render).getD ""
  let mark := if m.date.isSome && m.time.isSome then "T" else ""
  date ++ mark ++ (m.time.map Time.render).getD "" ++ (m.offset.map Offset.render).getD ""

end Staging.Toml
