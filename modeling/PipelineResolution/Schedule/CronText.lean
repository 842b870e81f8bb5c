import PipelineResolution.Schedule.Cron

/-!
# Cron expressions

Five fields say the minute, hour, day, month and weekday of a rule. A field is `*` or a list of
numbers, ranges and steps; days and weekdays have marks of their own. Month and weekday names stand
for their numbers.
-/
namespace PipelineResolution.Cron
open Text (Parser)

/-- Names and what they stand for. At the end of a range Sunday comes after Saturday. -/
def names : List (String × String) := [
  ("-SUN", "-7"), ("SUN", "0"), ("MON", "1"), ("TUE", "2"), ("WED", "3"), ("THU", "4"),
  ("FRI", "5"), ("SAT", "6"), ("JAN", "1"), ("FEB", "2"), ("MAR", "3"), ("APR", "4"), ("MAY", "5"),
  ("JUN", "6"), ("JUL", "7"), ("AUG", "8"), ("SEP", "9"), ("OCT", "10"), ("NOV", "11"),
  ("DEC", "12")]

def replaceAll (part replacement : List Char) : (fuel : Nat) → List Char → List Char
  | 0, s => s
  | fuel + 1, s =>
    match Text.cutChars part s with
    | some (before, rest) => before ++ replacement ++ replaceAll part replacement fuel rest
    | none => s

/-- The capital of a character. Of the characters outside ASCII two have a capital in names. -/
def capital (c : Char) : Char :=
  if c == 'ı' then 'I' else if c == 'ſ' then 'S' else c.toUpper

/-- A field in capitals and with numbers for names. -/
def spellOut (field : String) : List Char :=
  names.foldl (fun s (name, number) => replaceAll name.toList number.toList s.length s)
    (field.toList.map capital)

private def number : Parser Nat := do
  match Text.digitsToNat? (← Reading.span1 Char.isDigit) with
  | some n => if n < Word.count 16 then return n else Reading.fail
  | none => Reading.fail

/-- The numbers from `first` to `last` in steps, within the bounds of a field. The first step stays
below 2 ^ 16. -/
private def progression (lo hi first last step : Nat) : Parser (List Nat) :=
  if lo ≤ first ∧ first ≤ last ∧ last ≤ hi ∧ 0 < step ∧ first + step < Word.count 16 then
    return List.range' first ((last - first) / step + 1) step
  else Reading.fail

private def numbers (lo hi : Nat) : Parser (List Nat) :=
  let step : Parser Nat := do
    Parser.char '/'
    number
  (do Parser.char '*'
      progression lo hi lo hi (← step))
  <|> (do
    let first ← number
    Parser.char '-'
    let last ← number
    progression lo hi first last ((← Reading.optional step).getD 1))
  <|> (do
    let first ← number
    match ← Reading.optional step with
    | some step => progression lo hi first hi step
    | none => progression lo hi first first 1)

/-- The items of a list; empty ones are passed over. -/
private def items (s : List Char) : List (List Char) := Text.pieces (· != ',') s

/-- The numbers of a field without marks, in increasing order. -/
private def plain? (lo hi : Nat) (s : List Char) : Option (List Nat) := do
  let all := List.range' lo (hi + 1 - lo)
  if s == ['*'] then return all
  else
    let found ← (items s).mapM (Reading.whole? (numbers lo hi))
    return all.filter found.flatten.contains

private def sign? (item : List Char) : Option Char :=
  if item.contains '/' then some '/' else if item.contains '-' then some '-' else none

/-- The rule with one more item. What follows a `W` is passed over. -/
private def addDay (r : DayRule) (item : List Char) : Option DayRule := do
  if item.contains 'W' && (sign? item).isNone then
    let n ← Reading.whole? number (item.takeWhile (· != 'W'))
    if 1 ≤ n ∧ n ≤ 31 then return { r with nearest := r.nearest ++ [n] } else none
  else if item == ['L'] then return { r with last := true }
  else return { r with days := r.days ++ (← Reading.whole? (numbers 1 31) item) }

private def isNumberChar (c : Char) : Bool :=
  c.isDigit || c == '*' || c == '/' || c == '-' || c == ','

private def dayRule? (s : List Char) : Option DayRule :=
  let s := s.map fun c => if c == '?' then '*' else c
  if s == ['*'] then some ⟨true, [], false, []⟩
  else if s.all fun c => isNumberChar c || c == 'L' || c == 'W' then
    (items s).foldlM addDay ⟨false, [], false, []⟩
  else none

/-- Which of its weekdays in a month an item means. -/
private inductive Mark where
  | every | last
  | nth (n : Nat)

/-- The mark of an item: an `L` at its end wins over the number after its first `#`. -/
private def mark? (item : List Char) : Option Mark :=
  if item.getLast? == some 'L' then some .last
  else match Text.cutChars ['#'] item with
    | none => some .every
    | some (_, rest) => do
      let n ← Reading.whole? number rest
      if 1 ≤ n ∧ n ≤ 5 then some (.nth n) else none

/-- An item in which every `L` without a sign has one. -/
private def withSigns (item : List Char) : List Char :=
  if (sign? item).isSome || item.contains '#' || item.getLast? != some 'L' then item
  else item.flatMap fun c => if c == 'L' then ['#', 'L'] else [c]

/-- The rule with one more item. A lone `L` names no weekday, and the 7 is never the last of its
kind. -/
private def addWeekday (r : WeekdayRule) (item : List Char) : Option WeekdayRule := do
  if item == ['L'] then return r
  else
    let item := withSigns item
    let mark ← mark? item
    let body := item.takeWhile (· != '#')
    if sign? body != sign? item then none
    let ns ← Reading.whole? (numbers 0 7) body
    match mark with
    | .every => return { r with weekdays := r.weekdays ++ ns.map (· % 7) }
    | .last => return { r with last := r.last ++ ns.filter (· < 7) }
    | .nth n => return { r with nth := r.nth ++ ns.map fun w => (w % 7, n) }

private def weekdayRule? (s : List Char) : Option WeekdayRule :=
  let s := s.map fun c => if c == '?' then '*' else c
  if s == ['*'] then some ⟨true, [], [], []⟩
  else if s.all fun c => isNumberChar c || c == 'L' || c == '#' then
    (items s).foldlM addWeekday ⟨false, [], [], []⟩
  else none

/-- The rule of five fields. A `+` before the weekday makes date and weekday agree. -/
def ofFields? : List String → Option Cron
  | [minute, hour, day, month, weekday] => do
    let minutes ← plain? 0 59 (spellOut minute)
    let hours ← plain? 0 23 (spellOut hour)
    let days ← dayRule? (spellOut day)
    let months ← plain? 1 12 (spellOut month)
    let spelled := spellOut weekday
    let agreeing := Text.afterStart? ['+'] spelled
    let weekdays ← weekdayRule? (agreeing.getD spelled)
    return ⟨minutes, hours, days, months, weekdays, agreeing.isSome⟩
  | _ => none

end PipelineResolution.Cron
