import Heredity.Fault

/-!
# Dates and times

Some documents hold dates and times.  No operation makes or reads them; they are carried along,
compared, and shown.

* `Day` and `Clock` are days of the calendar and times of the day, with the proof that they exist.
* `Moment` is a day, a time, or both, and then perhaps with its distance from universal time.
* `Moment.line` and `Moment.position` place moments: only those on one line can be compared, and
  two moments are equal if they have the same position on the same line.  So two of them that are
  given with their distances from universal time are equal if they are the same instant.
* `Moment.render` shows a moment inside a message, and `Moment.toText` converts it to a text.
-/

namespace Heredity

/-! ### The calendar -/

/-- Whether a year has a leap day. -/
def isLeapYear (year : Nat) : Bool := year % 4 = 0 && (year % 100 != 0 || year % 400 = 0)

/-- The number of days of a month. -/
def daysInMonth (year month : Nat) : Nat :=
  if month = 2 then if isLeapYear year then 29 else 28
  else if month = 4 || month = 6 || month = 9 || month = 11 then 30
  else 31

/-- A day of the calendar. -/
structure Day where
  /-- The year. -/
  year : Nat
  /-- The month, from one. -/
  month : Nat
  /-- The day of the month, from one. -/
  day : Nat
  /-- There is such a day. -/
  inCalendar : 0 < year ∧ year < 10000 ∧ 0 < month ∧ month ≤ 12 ∧ 0 < day ∧
    day ≤ daysInMonth year month
deriving DecidableEq

/-- The day with the given numbers, if there is one. -/
def Day.of? (year month day : Nat) : Option Day :=
  if h : _ then some ⟨year, month, day, h⟩ else none

/-- The days from the first day of the year one. -/
def Day.number (d : Day) : Nat :=
  let years := d.year - 1
  let months := (List.range' 1 (d.month - 1)).foldl (fun days m => days + daysInMonth d.year m) 0
  365 * years + years / 4 - years / 100 + years / 400 + months + (d.day - 1)

/-- A time of the day. -/
structure Clock where
  /-- The hour. -/
  hour : Nat
  /-- The minute. -/
  minute : Nat
  /-- The second. -/
  second : Nat
  /-- The fraction of the second. -/
  microsecond : Nat
  /-- There is such a time. -/
  inDay : hour < 24 ∧ minute < 60 ∧ second < 60 ∧ microsecond < 1000000
deriving DecidableEq

/-- The time with the given numbers, if there is one. -/
def Clock.of? (hour minute second microsecond : Nat) : Option Clock :=
  if h : _ then some ⟨hour, minute, second, microsecond, h⟩ else none

/-- The microseconds from the beginning of the day. -/
def Clock.number (c : Clock) : Nat :=
  ((c.hour * 60 + c.minute) * 60 + c.second) * 1000000 + c.microsecond

/-- The microseconds of a minute. -/
def minuteLength : Nat := 60 * 1000000

/-! ### Moments -/

/-- A date, a time, or both. -/
inductive Moment where
  /-- A day. -/
  | date (day : Day)
  /-- A time of any day. -/
  | time (clock : Clock)
  /-- A time of a day, and by how many minutes it is ahead of universal time, if that is known. -/
  | dateTime (day : Day) (clock : Clock) (ahead : Option Int)
deriving DecidableEq

/-- The lines on which moments lie. -/
inductive Timeline where
  | days | clock | local | universal
deriving DecidableEq

namespace Moment

/-- The line on which a moment lies. -/
def line : Moment → Timeline
  | .date _ => .days
  | .time _ => .clock
  | .dateTime _ _ none => .local
  | .dateTime _ _ (some _) => .universal

/-- The place of a moment on its line, in microseconds. -/
def position : Moment → Int
  | .date d => d.number * (1440 * minuteLength : Nat)
  | .time c => c.number
  | .dateTime d c ahead =>
    d.number * (1440 * minuteLength : Nat) + c.number - ahead.getD 0 * (minuteLength : Nat)

/-- Whether two moments are equal. -/
def same (a b : Moment) : Bool := a.line = b.line && a.position = b.position

/-- The order of two moments on one line. -/
def order (a b : Moment) : Except Fault Ordering :=
  if a.line = b.line then .ok (Ord.compare a.position b.position) else .error .unsupported

/-- The difference of two moments, which is a span of time and no value. -/
def difference {α : Type} (a b : Moment) : Except Fault α :=
  if a.line = b.line ∧ a.line ≠ .clock then .error .unrepresented else .error .unsupported

theorem same_iff {a b : Moment} :
    same a b = true ↔ a.line = b.line ∧ a.position = b.position := by
  simp [same]

/-! ### The text of moments -/

/-- A number with at least `width` digits. -/
def padded (width n : Nat) : String :=
  let digits := Nat.toDigits 10 n
  String.ofList (List.replicate (width - digits.length) '0' ++ digits)

/-- The parts of a day. -/
def dayParts (d : Day) : List String := [toString d.year, toString d.month, toString d.day]

/-- The parts of a time, without zeros at the end. -/
def clockParts (c : Clock) : List String :=
  [toString c.hour, toString c.minute] ++
    if c.microsecond ≠ 0 then [toString c.second, toString c.microsecond]
    else if c.second ≠ 0 then [toString c.second]
    else []

/-- The distance from universal time as a part. -/
def aheadPart : Option Int → List String
  | none => []
  | some 0 => ["tzinfo=datetime.timezone.utc"]
  | some n =>
    let days := if n < 0 then "days=-1, " else ""
    let seconds := toString (n * 60 % 86400)
    ["tzinfo=datetime.timezone(datetime.timedelta(" ++ days ++ "seconds=" ++ seconds ++ "))"]

/-- A name with parts in parentheses. -/
def form (name : String) (parts : List String) : String :=
  "datetime." ++ name ++ "(" ++ ", ".intercalate parts ++ ")"

/-- A moment as it is shown inside a message. -/
def render : Moment → String
  | .date d => form "date" (dayParts d)
  | .time c => form "time" (clockParts c)
  | .dateTime d c ahead => form "datetime" (dayParts d ++ clockParts c ++ aheadPart ahead)

/-- The text of a day. -/
def dayText (d : Day) : String :=
  padded 4 d.year ++ "-" ++ padded 2 d.month ++ "-" ++ padded 2 d.day

/-- The text of a time. -/
def clockText (c : Clock) : String :=
  padded 2 c.hour ++ ":" ++ padded 2 c.minute ++ ":" ++ padded 2 c.second ++
    if c.microsecond = 0 then "" else "." ++ padded 6 c.microsecond

/-- The text of a distance from universal time. -/
def aheadText : Option Int → String
  | none => ""
  | some n =>
    (if n < 0 then "-" else "+") ++ padded 2 (n.natAbs / 60) ++ ":" ++ padded 2 (n.natAbs % 60)

/-- A moment converted to a text. -/
def toText : Moment → String
  | .date d => dayText d
  | .time c => clockText c
  | .dateTime d c ahead => dayText d ++ " " ++ clockText c ++ aheadText ahead

end Moment

end Heredity
