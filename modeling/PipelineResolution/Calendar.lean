import PipelineResolution.Text.Parser

/-!
# The calendar

Dates of the proleptic Gregorian calendar and minutes of a day, all in universal time.
-/
namespace PipelineResolution

structure Date where
  year : Int
  month : Nat
  day : Nat
  deriving DecidableEq, Inhabited

def isLeapYear (year : Int) : Bool := year % 4 == 0 && (year % 100 != 0 || year % 400 == 0)

def daysInMonth (year : Int) (month : Nat) : Nat :=
  if month == 2 then if isLeapYear year then 29 else 28
  else if [4, 6, 9, 11].contains month then 30
  else 31

namespace Date

/-- Days since the last day of the year before the year 1. -/
def dayNumber (d : Date) : Int :=
  let year := d.year - 1
  let before := (List.range (d.month - 1)).foldl (fun n m => n + daysInMonth d.year (m + 1)) 0
  365 * year + year / 4 - year / 100 + year / 400 + before + d.day

/-- The day of the week; Sunday is 0. -/
def weekday (d : Date) : Nat := (d.dayNumber % 7).toNat

def isValid (d : Date) : Bool :=
  1 ≤ d.month && d.month ≤ 12 && 1 ≤ d.day && d.day ≤ daysInMonth d.year d.month

def next (d : Date) : Date :=
  if d.day < daysInMonth d.year d.month then { d with day := d.day + 1 }
  else if d.month < 12 then ⟨d.year, d.month + 1, 1⟩
  else ⟨d.year + 1, 1, 1⟩

def previous (d : Date) : Date :=
  if 1 < d.day then { d with day := d.day - 1 }
  else if 1 < d.month then ⟨d.year, d.month - 1, daysInMonth d.year (d.month - 1)⟩
  else ⟨d.year - 1, 12, 31⟩

end Date

/-- A minute of a date, counted from midnight. -/
structure Moment where
  date : Date
  minute : Nat
  deriving DecidableEq, Inhabited

namespace Moment

/-- The moment a number of minutes after the midnight that a date starts with; the number may fall
into a neighbouring day. -/
def ofMinutes (date : Date) (minutes : Int) : Moment :=
  if minutes < 0 then ⟨date.previous, (minutes + 1440).toNat⟩
  else if 1440 ≤ minutes then ⟨date.next, (minutes - 1440).toNat⟩
  else ⟨date, minutes.toNat⟩

private def digits : Nat → Text.Parser (List Char)
  | 0 => return []
  | n + 1 => do
    let c ← Reading.satisfy Char.isDigit
    return c :: (← digits n)

/-- A number of exactly so many digits and at most so large. -/
private def number (width most : Nat) : Text.Parser Nat := do
  match Text.digitsToNat? (← digits width) with
  | some n => if n ≤ most then return n else Reading.fail
  | none => Reading.fail

/-- The distance from universal time, in minutes. -/
private def zone : Text.Parser Int :=
  (do let _ ← Reading.satisfy fun c => c == 'Z' || c == 'z'
      return 0)
  <|> (do
    let sign ← Reading.satisfy fun c => c == '+' || c == '-' || c == '−'
    let hours ← number 2 23
    Text.Parser.char ':'
    let minutes ← number 2 59
    let distance : Int := hours * 60 + minutes
    return if sign == '+' then distance else -distance)

private def timestamp : Text.Parser Moment := do
  let year ← number 4 9999
  Text.Parser.char '-'
  let month ← number 2 12
  Text.Parser.char '-'
  let day ← number 2 31
  let _ ← Reading.satisfy fun c => c == 'T' || c == 't' || c == ' '
  let hour ← number 2 23
  Text.Parser.char ':'
  let minute ← number 2 59
  Text.Parser.char ':'
  let _ ← number 2 60
  let _ ← Reading.optional (do
    Text.Parser.char '.'
    Reading.span1 Char.isDigit)
  let distance ← zone
  let date : Date := ⟨year, month, day⟩
  if date.isValid then return ofMinutes date ((hour * 60 + minute : Nat) - distance)
  else Reading.fail

/-- The minute of a timestamp such as `2024-02-29T10:30:00Z`; seconds are left aside. -/
def ofText? (s : String) : Option Moment := Reading.whole? timestamp s.toList

private def padded (width : Nat) (n : Nat) : String :=
  let digits := toString n
  String.ofList (List.replicate (width - digits.length) '0') ++ digits

def display (m : Moment) : String :=
  padded 4 m.date.year.toNat ++ "-" ++ padded 2 m.date.month ++ "-" ++ padded 2 m.date.day ++ "T"
    ++ padded 2 (m.minute / 60) ++ ":" ++ padded 2 (m.minute % 60) ++ ":00Z"

end Moment
end PipelineResolution
