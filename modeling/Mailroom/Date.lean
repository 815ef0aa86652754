import Mailroom.Text.LowerCase
import Mailroom.Text.Number

/-!
# Dates

A point in time is a whole number of seconds since the beginning of 1970 in Coordinated Universal
Time, without leap seconds.  `Date.parse` reads the text of a `Date` field, `Date.render` writes
one.

* Reading is lenient: a text that ends early gives the time known so far, a day that the month
  does not have runs over into the next month, and what follows the zone does not count.
* `Date.inRange` tells the times that can be compared with: those of the years from -262143 to
  262142.
* `Date.spanOfDays?` and `Date.before?` count back from a time, where the numbers are not too
  great for it.
-/

namespace Mailroom

/-- A point in time, in seconds since the beginning of 1970. -/
abbrev Time := Int

namespace Date

/-- The seconds of a day. -/
def daySeconds : Int := 86400

/-- The least point in time. -/
def minTime : Time := -8334601228800

/-- The greatest point in time. -/
def maxTime : Time := 8210266876799

/-- Whether a number of seconds is a point in time that exists. -/
def inRange (t : Int) : Bool := decide (minTime ≤ t) && decide (t ≤ maxTime)

/-- The greatest number of 64 bits. -/
def greatestInt64 : Int := 0x7FFFFFFFFFFFFFFF

/-- The seconds of the longest span of time: its milliseconds are a number of 64 bits, and those
of the span backwards are, too. -/
def longestSpan : Int := greatestInt64 / 1000

/-- The seconds of some days; none, if they are no number of 64 bits or too many for a span. -/
def spanOfDays? (days : Int) : Option Int :=
  let seconds := days * daySeconds
  if -greatestInt64 - 1 ≤ seconds ∧ seconds ≤ greatestInt64 then
    if -longestSpan ≤ seconds ∧ seconds ≤ longestSpan then some seconds else none
  else none

/-- The time that lies a span before another one, if it exists. -/
def before? (t : Time) (span : Int) : Option Time :=
  if inRange (t - span) then some (t - span) else none

/-! ## The calendar -/

/-- The days from the beginning of 1970 to a day of the Gregorian calendar.  The year is counted
from March, so that the leap day comes last. -/
def daysOfCivil (year : Int) (month day : Nat) : Int :=
  let y := if month ≤ 2 then year - 1 else year
  let era := Int.fdiv y 400
  let yearOfEra := y - era * 400
  let m : Int := (month + 9) % 12
  let dayOfYear := (153 * m + 2) / 5 + day - 1
  let dayOfEra := yearOfEra * 365 + yearOfEra / 4 - yearOfEra / 100 + dayOfYear
  era * 146097 + dayOfEra - 719468

/-- The year, month and day of a number of days since the beginning of 1970. -/
def civilOfDays (days : Int) : Int × Nat × Nat :=
  let z := days + 719468
  let era := Int.fdiv z 146097
  let dayOfEra := z - era * 146097
  let yearOfEra := (dayOfEra - dayOfEra / 1460 + dayOfEra / 36524 - dayOfEra / 146096) / 365
  let dayOfYear := dayOfEra - (365 * yearOfEra + yearOfEra / 4 - yearOfEra / 100)
  let m := (5 * dayOfYear + 2) / 153
  let day := dayOfYear - (153 * m + 2) / 5 + 1
  let month := if m < 10 then m + 3 else m - 9
  let year := yearOfEra + era * 400
  (if month ≤ 2 then year + 1 else year, month.toNat, day.toNat)

/-- The months, each with its short name. -/
def months : List (Text × Text) :=
  [("JAN", "JANUARY"), ("FEB", "FEBRUARY"), ("MAR", "MARCH"), ("APR", "APRIL"), ("MAY", "MAY"),
   ("JUN", "JUNE"), ("JUL", "JULY"), ("AUG", "AUGUST"), ("SEP", "SEPTEMBER"), ("OCT", "OCTOBER"),
   ("NOV", "NOVEMBER"), ("DEC", "DECEMBER")]

/-! ## Reading -/

/-- Why a text is no date. -/
inductive Fault where
  /-- The day is not between 1 and 31. -/
  | day
  /-- The month has no known name. -/
  | month
  /-- The year is no number. -/
  | year
  /-- The year is between 100 and 1969. -/
  | oldYear
  /-- The hour is no small number. -/
  | hour
  /-- The minute is no small number. -/
  | minute
  /-- The second is no small number. -/
  | second
  /-- The zone is neither a number of suitable size nor a known name. -/
  | zone
  deriving DecidableEq, Repr

/-- The wording of a fault. -/
def Fault.message : Fault → Text
  | .day => "Invalid day"
  | .month => "Unrecognized month"
  | .year => "Invalid year"
  | .oldYear => "Disallowed year"
  | .hour => "Invalid hour"
  | .minute => "Invalid minute"
  | .second => "Invalid second"
  | .zone => "Invalid timezone"

/-- The number of a month, from its name in any case. -/
def month? (t : Text) : Option Nat :=
  let name := Text.asciiCapitals t
  (months.findIdx? (fun m => m.1 == name || m.2 == name)).map (· + 1)

/-- The year that a number stands for: two digits stand for a year from 1970 to 2069. -/
def yearOf (t : Text) : Except Fault Nat :=
  match readNat 4294967295 t with
  | .error _ => .error .year
  | .ok n =>
    if n < 70 then .ok (2000 + n)
    else if n < 100 then .ok (1900 + n)
    else if n < 1970 then .error .oldYear
    else .ok n

/-- The zones that have names, in hundreds of hours east of Greenwich. -/
def zones : List (Text × Int) :=
  [("UTC", 0), ("UT", 0), ("GMT", 0), ("Z", 0), ("EDT", -400), ("EST", -500), ("CDT", -500),
   ("CST", -600), ("MDT", -600), ("MST", -700), ("PDT", -700), ("PST", -800), ("A", -100),
   ("M", -1200), ("N", 100), ("Y", 1200)]

/-- The seconds by which a zone is ahead of Greenwich. -/
def zoneOffset (t : Text) : Except Fault Int :=
  let seconds (hhmm : Int) : Int := Int.tdiv hhmm 100 * 3600 + Int.tmod hhmm 100 * 60
  match readInt? 2147483647 t with
  | some n => if -2400 ≤ n ∧ n ≤ 2400 then .ok (seconds n) else .error .zone
  | none =>
    match zones.lookup (Text.asciiCapitals t) with
    | some n => .ok (seconds n)
    | none => .error .zone

/-- A number below 256. -/
def small? (t : Text) : Option Nat := (readNat 255 t).toOption

/-- Reads hour, minute, second and zone, as far as they are there, after a day. -/
def timeAfter (midnight : Int) : List Text → Except Fault Int
  | [] => .ok midnight
  | h :: rest => do
    let some hour := small? h | .error .hour
    let t := midnight + 3600 * hour
    match rest with
    | [] => .ok t
    | m :: rest =>
      let some minute := small? m | .error .minute
      let t := t + 60 * minute
      match rest with
      | [] => .ok t
      | s :: rest =>
        let some second := small? s | .error .second
        let t := t + second
        match rest with
        | [] => .ok t
        | z :: _ => do
          let offset ← zoneOffset z
          .ok (t - offset)

/-- Reads the text of a date field.  What stands before the first small number, such as the name
of a weekday, does not count; without a day, a month or a year the result is 0. -/
def parse (t : Text) : Except Fault Int :=
  let tokens := Text.words (fun c => c == ' ' || c == ':') t
  match tokens.dropWhile (fun w => (small? w).isNone) with
  | [] => .ok 0
  | d :: rest =>
    let day := (small? d).getD 0
    if day < 1 ∨ 31 < day then .error .day
    else match rest with
      | [] => .ok 0
      | m :: rest =>
        match month? m with
        | none => .error .month
        | some month =>
          match rest with
          | [] => .ok 0
          | y :: rest => do
            let year ← yearOf y
            timeAfter (daysOfCivil year month day * daySeconds) rest

/-! ## Writing -/

/-- The short names of the weekdays, beginning with the first day of 1970. -/
def weekdays : List Text := ["Thu", "Fri", "Sat", "Sun", "Mon", "Tue", "Wed"]

/-- The short name of a month as it is written. -/
def monthName (month : Nat) : Text :=
  match (months.getD (month - 1) ([], [])).1 with
  | c :: cs => c :: Text.asciiLower cs
  | [] => []

/-- The text of a date field: weekday, day without padding, month, year, time and zone. -/
def render (t : Time) : Text :=
  let days := Int.fdiv t daySeconds
  let second := (t - days * daySeconds).toNat
  let (year, month, day) := civilOfDays days
  let two := Text.ofNatPadded 2
  weekdays.getD (Int.fmod days 7).toNat [] ++ ", " ++ Text.ofNat day ++ " " ++
    monthName month ++ " " ++ Text.ofNatPadded 4 year.toNat ++ " " ++ two (second / 3600) ++ ":" ++
    two (second / 60 % 60) ++ ":" ++ two (second % 60) ++ " +0000"

end Date

end Mailroom
