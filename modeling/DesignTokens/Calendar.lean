/-!
# Days and moments

Days of the Gregorian calendar in the years 1 to 9999, and times of day on them, with their distance
from universal time where that is known.
-/

set_option autoImplicit false

namespace DesignTokens

/-- A day of the calendar. -/
structure Day where
  year : Nat
  month : Nat
  day : Nat
  deriving DecidableEq, Repr, Inhabited

namespace Day

/-- Whether a year has a twenty-ninth of February. -/
def isLeapYear (year : Nat) : Bool :=
  year % 4 == 0 && (year % 100 != 0 || year % 400 == 0)

/-- The number of days of each month of a year. -/
def monthLengths (year : Nat) : List Nat :=
  [31, if isLeapYear year then 29 else 28, 31, 30, 31, 30, 31, 31, 30, 31, 30, 31]

/-- The number of days of a month; there are twelve months. -/
def monthLength? (year month : Nat) : Option Nat :=
  if month = 0 then none else (monthLengths year)[month - 1]?

/-- The day of three numbers, if there is one. -/
def of? (year month day : Nat) : Option Day :=
  match monthLength? year month with
  | none => none
  | some length =>
    if 1 ≤ year ∧ year ≤ 9999 ∧ 1 ≤ day ∧ day ≤ length then some ⟨year, month, day⟩ else none

/-- The number of days from the first day of the calendar to a day. -/
def ordinal (d : Day) : Nat :=
  let years := d.year - 1
  365 * years + years / 4 - years / 100 + years / 400 +
    ((monthLengths d.year).take (d.month - 1)).foldr (· + ·) 0 + (d.day - 1)

/-- A day as a message shows it. -/
def shown (d : Day) : String :=
  s!"datetime.date({d.year}, {d.month}, {d.day})"

end Day

/-- A time of day on a day.  The offset is the distance from universal time in minutes. -/
structure Moment where
  day : Day
  hour : Nat
  minute : Nat
  second : Nat
  microsecond : Nat
  offset : Option Int
  deriving DecidableEq, Repr, Inhabited

namespace Moment

/-- The minutes of a day. -/
def dayMinutes : Nat := 1440

/-- The moment of a time of day, if there is one.  Offsets are shorter than a day. -/
def of? (day : Day) (hour minute second microsecond : Nat) (offset : Option Int) :
    Option Moment :=
  if hour < 24 ∧ minute < 60 ∧ second < 60 ∧ offset.all (fun o => o.natAbs < dayMinutes) then
    some ⟨day, hour, minute, second, microsecond, offset⟩
  else
    none

/-- The microseconds from the first moment of the calendar to a moment, as its own clock counts. -/
def clockMicroseconds (m : Moment) : Int :=
  (((m.day.ordinal * dayMinutes + m.hour * 60 + m.minute) * 60 + m.second) * 1000000 +
    m.microsecond : Nat)

/-- The microseconds of universal time, if the offset is known. -/
def universal? (m : Moment) : Option Int :=
  m.offset.map fun offset => m.clockMicroseconds - offset * 60000000

/-- The numbers that a message shows of a time of day: seconds and their parts only if needed. -/
def shownNumbers (m : Moment) : List Nat :=
  [m.day.year, m.day.month, m.day.day, m.hour, m.minute] ++
    if m.microsecond ≠ 0 then [m.second, m.microsecond]
    else if m.second ≠ 0 then [m.second]
    else []

/-- An offset as a message shows it: a number of seconds within the day it leads to. -/
def shownOffset (offset : Int) : String :=
  if offset = 0 then "datetime.timezone.utc"
  else
    let seconds := offset * 60
    let inner := if offset < 0 then s!"days=-1, seconds={86400 + seconds}" else s!"seconds={seconds}"
    s!"datetime.timezone(datetime.timedelta({inner}))"

/-- A moment as a message shows it. -/
def shown (m : Moment) : String :=
  let zone := match m.offset with
    | some offset => [s!"tzinfo={shownOffset offset}"]
    | none => []
  let inner := ", ".intercalate (m.shownNumbers.map toString ++ zone)
  s!"datetime.datetime({inner})"

end Moment

end DesignTokens
