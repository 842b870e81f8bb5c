import PipelineResolution.Calendar

/-!
# Cron rules

A rule says at which minutes of which days something fires. A day is named by its date, by its
weekday, or by both; when both restrict the days, either of them suffices unless the rule asks for
both.
-/
namespace PipelineResolution

/-- The days of a month that a rule names. -/
structure DayRule where
  /-- Every day, which is no restriction. -/
  any : Bool
  days : List Nat
  /-- The last day of the month. -/
  last : Bool
  /-- Days that stand for the working day nearest to them in the same month. -/
  nearest : List Nat
  deriving DecidableEq

/-- The weekdays that a rule names; Sunday is 0. -/
structure WeekdayRule where
  /-- Every weekday, which is no restriction. -/
  any : Bool
  weekdays : List Nat
  /-- Weekdays that count only for the last time in a month. -/
  last : List Nat
  /-- Weekdays that count only for the n-th time in a month. -/
  nth : List (Nat × Nat)
  deriving DecidableEq

structure Cron where
  /-- In increasing order. -/
  minutes : List Nat
  /-- In increasing order. -/
  hours : List Nat
  days : DayRule
  months : List Nat
  weekdays : WeekdayRule
  /-- Date and weekday have to agree. -/
  both : Bool
  deriving DecidableEq

/-- The working day of the month nearest to a date. -/
def Date.nearestWorkday (d : Date) : Nat :=
  match d.weekday with
  | 6 => if d.day = 1 then 3 else d.day - 1
  | 0 => if d.day = daysInMonth d.year d.month then d.day - 2 else d.day + 1
  | _ => d.day

def DayRule.holds (r : DayRule) (d : Date) : Bool :=
  r.any || r.days.contains d.day
    || (r.last && d.day == daysInMonth d.year d.month)
    || r.nearest.any fun n =>
      n ≤ daysInMonth d.year d.month && Date.nearestWorkday { d with day := n } == d.day

def WeekdayRule.holds (r : WeekdayRule) (d : Date) : Bool :=
  let w := d.weekday
  r.any || r.weekdays.contains w
    || (r.last.contains w && daysInMonth d.year d.month < d.day + 7)
    || r.nth.contains (w, (d.day + 6) / 7)

namespace Cron

def holds (c : Cron) (d : Date) : Bool :=
  c.months.contains d.month
    && if c.days.any || c.weekdays.any || c.both then c.days.holds d && c.weekdays.holds d
      else c.days.holds d || c.weekdays.holds d

/-- The minutes of a day at which a rule fires, in order. -/
def times (c : Cron) : List Nat := c.hours.flatMap fun h => c.minutes.map (60 * h + ·)

def firstYear : Int := 1

def lastYear : Int := 4999

/-- The first date of a month on which a rule fires, from a day on. -/
def dateIn? (c : Cron) (year : Int) (month first : Nat) : Option Date :=
  if c.months.contains month then
    ((List.range' first (daysInMonth year month + 1 - first)).map (⟨year, month, ·⟩)).find? c.holds
  else none

/-- The first date on which a rule fires in so many months. -/
def dateWithin? (c : Cron) : (months : Nat) → (year : Int) → (month : Nat) → Option Date
  | 0, _, _ => none
  | n + 1, year, month =>
    c.dateIn? year month 1 <|>
      if month < 12 then c.dateWithin? n year (month + 1) else c.dateWithin? n (year + 1) 1

/-- The first date after another on which a rule fires. -/
def dateAfter? (c : Cron) (d : Date) : Option Date :=
  let months := ((lastYear - d.year) * 12 + (12 - d.month)).toNat
  c.dateIn? d.year d.month (d.day + 1) <|>
    if d.month < 12 then c.dateWithin? months d.year (d.month + 1)
    else c.dateWithin? months (d.year + 1) 1

def next? (c : Cron) (m : Moment) : Option Moment :=
  let m := if m.date.year < firstYear then ⟨⟨firstYear - 1, 12, 31⟩, 1439⟩ else m
  if lastYear < m.date.year then none
  else
    let today := if c.holds m.date then c.times.find? (m.minute < ·) else none
    match today with
    | some t => some ⟨m.date, t⟩
    | none => do
      let t ← c.times.head?
      let d ← c.dateAfter? m.date
      return ⟨d, t⟩

end Cron
end PipelineResolution
