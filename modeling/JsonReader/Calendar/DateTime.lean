import JsonReader.Calendar.Date
import JsonReader.Number.Digits

/-!
# Dates with a time of day

## Main definitions

* `Time` is a time of day; in a leap second the nanoseconds run on beyond one second.
* `DateTime` is a date with a time of day.
* `DateTime.text` and `OffsetDateTime.text` show them in messages.
* `OffsetDateTime` is a local time with its offset from UTC, `OffsetDateTime.utc` the UTC time.
-/

namespace JsonReader.Calendar

/-- A time of day. A leap second is second 59 with 10 ^ 9 nanoseconds or more. -/
structure Time where
  hour : Nat
  minute : Nat
  second : Nat
  nanosecond : Nat
  deriving DecidableEq, Repr

namespace Time

def midnight : Time := ⟨0, 0, 0, 0⟩

/-- The nanoseconds of a second. -/
def nanosPerSecond : Nat := 1000000000

/-- A time that exists, from seconds up to 60: second 60 is the leap second behind second 59. -/
def make? (hour minute second nanosecond : Nat) : Option Time :=
  if hour ≤ 23 ∧ minute ≤ 59 then
    if second ≤ 59 then some ⟨hour, minute, second, nanosecond⟩
    else if second = 60 then some ⟨hour, minute, 59, nanosPerSecond + nanosecond⟩
    else none
  else none

/-- The whole minutes since midnight. -/
def minutes (t : Time) : Nat := 60 * t.hour + t.minute

end Time

/-- A date with a time of day. -/
structure DateTime where
  date : Date
  time : Time
  deriving DecidableEq, Repr

/-- The minutes of a day. -/
def minutesPerDay : Int := 1440

namespace DateTime

/-- Moves by whole minutes, less than a day in either direction. -/
def addMinutes (t : DateTime) (minutes : Int) : DateTime :=
  let total := t.time.minutes + minutes
  let date :=
    if total < 0 then t.date.previous
    else if minutesPerDay ≤ total then t.date.next
    else t.date
  let minute := (total % minutesPerDay).toNat
  ⟨date, { t.time with hour := minute / 60, minute := minute % 60 }⟩

/-- A number with leading zeros up to a number of digits. -/
def padded (count n : Nat) : List Char :=
  let ds := Number.digits n
  List.replicate (count - ds.length) '0' ++ ds

/-- A year with four digits; one that needs more, or is negative, has a sign. -/
def yearText (year : Int) : List Char :=
  if 0 ≤ year ∧ year ≤ 9999 then padded 4 year.toNat
  else (if year < 0 then '-' else '+') :: padded 4 year.natAbs

/-- A fraction of a second with the least of 0, 3, 6 and 9 digits that keep it. -/
def fractionText (nanosecond : Nat) : List Char :=
  if nanosecond = 0 then []
  else if nanosecond % 1000000 = 0 then '.' :: padded 3 (nanosecond / 1000000)
  else if nanosecond % 1000 = 0 then '.' :: padded 6 (nanosecond / 1000)
  else '.' :: padded 9 nanosecond

/-- The time in a message. A leap second is shown as second 60. -/
def text (t : DateTime) : String :=
  let leap := t.time.nanosecond / Time.nanosPerSecond
  String.ofList <| yearText t.date.year ++ '-' :: padded 2 t.date.month ++
    '-' :: padded 2 t.date.day ++ 'T' :: padded 2 t.time.hour ++ ':' :: padded 2 t.time.minute ++
    ':' :: padded 2 (t.time.second + leap) ++ fractionText (t.time.nanosecond % Time.nanosPerSecond)

end DateTime

/-- A local time and how many minutes it is ahead of UTC. -/
structure OffsetDateTime where
  here : DateTime
  offsetMinutes : Int
  deriving DecidableEq, Repr

namespace OffsetDateTime

/-- The same moment in UTC. -/
def utc (t : OffsetDateTime) : DateTime := t.here.addMinutes (-t.offsetMinutes)

/-- The offset in seconds. -/
def offsetSeconds (t : OffsetDateTime) : Int := 60 * t.offsetMinutes

/-- The local time and its offset in a message. -/
def text (t : OffsetDateTime) : String :=
  let minutes := t.offsetMinutes.natAbs
  t.here.text ++ (if t.offsetMinutes < 0 then "-" else "+") ++
    String.ofList (DateTime.padded 2 (minutes / 60) ++ ':' :: DateTime.padded 2 (minutes % 60))

end OffsetDateTime

end JsonReader.Calendar
