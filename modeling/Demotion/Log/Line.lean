import Demotion.Log.Basic
import Demotion.Text.Pad

/-!
# Lines of the log

An entry is written as a line with the time, the level, the logger and the message. On a terminal
the level and the logger are coloured. The time is that of the universal calendar, to the second.
-/

namespace Demotion.Log

/-! ## Time -/

/-- A day of the calendar. -/
structure Date where
  year : Int
  month : Nat
  day : Nat
  deriving DecidableEq, Repr

/-- The date of a day counted from the first of January 1970. A year is taken to begin in March, so
that the day that a leap year adds is its last. -/
def Date.ofDays (days : Int) : Date :=
  let shifted := days + 719468
  let era := shifted.fdiv 146097
  let dayOfEra := (shifted - era * 146097).toNat
  let yearOfEra := (dayOfEra - dayOfEra / 1460 + dayOfEra / 36524 - dayOfEra / 146096) / 365
  let dayOfYear := dayOfEra - (365 * yearOfEra + yearOfEra / 4 - yearOfEra / 100)
  let monthFromMarch := (5 * dayOfYear + 2) / 153
  let month := if monthFromMarch < 10 then monthFromMarch + 3 else monthFromMarch - 9
  { year := yearOfEra + era * 400 + (if month ≤ 2 then 1 else 0)
    month
    day := dayOfYear - (153 * monthFromMarch + 2) / 5 + 1 }

/-- A number with at least two digits. -/
def twoDigits (n : Nat) : String :=
  if n < 10 then s!"0{n}" else toString n

/-- The text of a date and the seconds of a day. -/
def stampOf (date : Date) (ofDay : Nat) : String :=
  let time := ":".intercalate
    [twoDigits (ofDay / 3600), twoDigits (ofDay / 60 % 60), twoDigits (ofDay % 60)]
  let month := twoDigits date.month
  let day := twoDigits date.day
  s!"{date.year}-{month}-{day} {time}"

/-- Why a number of seconds has no time. -/
inductive TimeError where
  /-- The seconds are no integer of 64 bits. -/
  | seconds
  /-- The years since 1900 are no integer of 32 bits. -/
  | years
  /-- The year is no integer of 32 bits. -/
  | year
  deriving DecidableEq, Repr

/-- The error in words. -/
def TimeError.message : TimeError → String
  | .seconds => "timestamp out of range for platform time_t"
  | .years => "[Errno 75] Value too large for defined data type"
  | .year => "signed integer is greater than maximum"

/-- The time of a number of seconds since the start of 1970. -/
def stamp (seconds : Int) : Except TimeError String :=
  let date := Date.ofDays (seconds.fdiv 86400)
  if seconds < -0x8000000000000000 || 0x8000000000000000 ≤ seconds then .error .seconds
  else if date.year - 1900 < -0x80000000 || 0x80000000 ≤ date.year - 1900 then .error .years
  else if 0x80000000 ≤ date.year then .error .year
  else .ok (stampOf date (seconds - seconds.fdiv 86400 * 86400).toNat)

/-! ## Lines -/

/-- A line of the log. -/
def line (time level logger message : String) : String :=
  time ++ " | " ++ Text.padEnd 8 level ++ " | " ++ Text.padEnd 20 logger ++ " | " ++ message

/-- The sequence that starts the colour of a level. -/
def colour (level : String) : String :=
  match level with
  | "DEBUG" => "\x1b[36m"
  | "INFO" => "\x1b[32m"
  | "WARNING" => "\x1b[33m"
  | "ERROR" => "\x1b[31m"
  | "CRITICAL" => "\x1b[35m"
  | _ => ""

/-- The sequence that ends a colour. -/
def noColour : String := "\x1b[0m"

/-- A line of the log for a terminal or for a file. -/
def consoleLine (terminal : Bool) (time level logger message : String) : String :=
  if terminal then
    line time (colour level ++ level ++ noColour) ("\x1b[34m" ++ logger ++ noColour) message
  else line time level logger message

/-- An entry as a line with its end. -/
def Entry.line (time : String) (e : Entry) : String :=
  Log.line time e.level.name e.logger e.message ++ "\n"

end Demotion.Log
