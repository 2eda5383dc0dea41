import JsonReader.Calendar.DateTime
import JsonReader.Number.Digits
import JsonReader.Text.Blank

/-!
# Texts of dates and times

Three formats are read. The lenient ones, a date with or without a time of day, take numbers with
fewer digits and blanks before a number. The strict one has a fixed number of digits and an offset.

## Main definitions

* `readLocal?`, `readDate?` and `readStrict?` read one format.
* `Formats` are readers of the three formats, `Formats.standard` those of this module.
* `readDateTime?` gives the UTC time of a text in any of them, `readOffsetDateTime?` the local time
  with its offset.
-/

namespace JsonReader.Calendar

open Number (ofDigits natural? powerOfTen)

/-- Takes digits off the front: at least one, and at most `most` if there is a bound. -/
def takeNumber? (most : Option Nat) (s : List Char) : Option (Nat × List Char) :=
  let run := s.takeWhile Char.isDigit
  let taken := match most with
    | some n => run.take n
    | none => run
  if taken.isEmpty then none else some (ofDigits taken, s.drop taken.length)

/-- Takes one given character off the front. -/
def takeChar? (c : Char) : List Char → Option (List Char)
  | d :: rest => if c = d then some rest else none
  | [] => none

/-- A number of one or two digits, behind blanks. -/
def takeTwo? (s : List Char) : Option (Nat × List Char) :=
  takeNumber? (some 2) (s.dropWhile Text.isBlank)

/-- A year, behind blanks: up to four digits, or a sign and any number of digits. -/
def takeYear? (s : List Char) : Option (Int × List Char) :=
  match s.dropWhile Text.isBlank with
  | '-' :: rest => (takeNumber? none rest).map fun (n, rest) => (-(n : Int), rest)
  | '+' :: rest => (takeNumber? none rest).map fun (n, rest) => ((n : Int), rest)
  | s => (takeNumber? (some 4) s).map fun (n, rest) => ((n : Int), rest)

/-- Nanoseconds from the digits behind a point; those behind the ninth do not count. -/
def nanosecondsOf (fraction : List Char) : Nat :=
  let taken := fraction.take 9
  ofDigits taken * powerOfTen (9 - taken.length)

/-- An optional fraction of a second: a point and at least one digit. -/
def takeFraction? : List Char → Option (Nat × List Char)
  | '.' :: rest =>
    let run := rest.takeWhile Char.isDigit
    if run.isEmpty then none else some (nanosecondsOf run, rest.dropWhile Char.isDigit)
  | s => some (0, s)

/-- A lenient date off the front. -/
def takeDate? (s : List Char) : Option (Date × List Char) := do
  let (year, s) ← takeYear? s
  let s ← takeChar? '-' s
  let (month, s) ← takeTwo? s
  let s ← takeChar? '-' s
  let (day, s) ← takeTwo? s
  let date ← Date.make? year month day
  some (date, s)

/-- A lenient time off the front. -/
def takeTime? (s : List Char) : Option (Time × List Char) := do
  let (hour, s) ← takeTwo? s
  let s ← takeChar? ':' s
  let (minute, s) ← takeTwo? s
  let s ← takeChar? ':' s
  let (second, s) ← takeTwo? s
  let (nanosecond, s) ← takeFraction? s
  let time ← Time.make? hour minute second nanosecond
  some (time, s)

/-- Nothing may follow. -/
def atEnd? {α : Type} : α × List Char → Option α
  | (a, []) => some a
  | _ => none

/-- A lenient date and time with a `T` between them. -/
def readLocal? (s : List Char) : Option DateTime := do
  let (date, s) ← takeDate? s
  let s ← takeChar? 'T' s
  let (time, s) ← takeTime? s
  atEnd? (⟨date, time⟩, s)

/-- A lenient date by itself. -/
def readDate? (s : List Char) : Option Date := (takeDate? s).bind atEnd?

/-- Exactly `count` digits off the front. -/
def takeExactly? (count : Nat) (s : List Char) : Option (Nat × List Char) :=
  if (s.take count).length = count then (natural? (s.take count)).map (·, s.drop count) else none

/-- A strict date off the front: four, two and two digits. -/
def takeStrictDate? (s : List Char) : Option (Date × List Char) := do
  let (year, s) ← takeExactly? 4 s
  let s ← takeChar? '-' s
  let (month, s) ← takeExactly? 2 s
  let s ← takeChar? '-' s
  let (day, s) ← takeExactly? 2 s
  let date ← Date.make? year month day
  some (date, s)

/-- A strict time off the front: two, two and two digits, and an optional fraction. -/
def takeStrictTime? (s : List Char) : Option (Time × List Char) := do
  let (hour, s) ← takeExactly? 2 s
  let s ← takeChar? ':' s
  let (minute, s) ← takeExactly? 2 s
  let s ← takeChar? ':' s
  let (second, s) ← takeExactly? 2 s
  let (nanosecond, s) ← takeFraction? s
  let time ← Time.make? hour minute second nanosecond
  some (time, s)

/-- The letter `T` of either case, or a space. -/
def takeSeparator? : List Char → Option (List Char)
  | c :: rest => if c = 'T' ∨ c = 't' ∨ c = ' ' then some rest else none
  | [] => none

/-- The two digits of hours and of minutes of an offset, less than a day. -/
def takeClock? (s : List Char) : Option (Int × List Char) := do
  let (hour, s) ← takeExactly? 2 s
  let s ← takeChar? ':' s
  let (minute, s) ← takeExactly? 2 s
  if minute ≤ 59 ∧ hour ≤ 23 then some (60 * hour + minute, s) else none

/-- An offset from UTC in minutes: the letter `Z` of either case, or a sign and a clock time. The
mathematical minus sign counts as a minus. -/
def takeOffset? : List Char → Option (Int × List Char)
  | c :: rest =>
    if c = 'Z' ∨ c = 'z' then some (0, rest)
    else if c = '+' then takeClock? rest
    else if c = '-' ∨ c = '\u2212' then (takeClock? rest).map fun (n, rest) => (-n, rest)
    else none
  | [] => none

/-- A strict date and time with an offset. -/
def readStrict? (s : List Char) : Option OffsetDateTime := do
  let (date, s) ← takeStrictDate? s
  let s ← takeSeparator? s
  let (time, s) ← takeStrictTime? s
  let (offset, s) ← takeOffset? s
  atEnd? (⟨⟨date, time⟩, offset⟩, s)

/-- Readers of the three formats: a date and time, the strict one with an offset, and a date. -/
structure Formats where
  local? : List Char → Option DateTime
  strict? : List Char → Option OffsetDateTime
  date? : List Char → Option Date

/-- The readers of this module. -/
def Formats.standard : Formats := ⟨readLocal?, readStrict?, readDate?⟩

/-- The UTC time of a text: a local time counts as UTC, and a date by itself is its midnight. -/
def readDateTime? (formats : Formats) (s : List Char) : Option DateTime :=
  match formats.local? s with
  | some t => some t
  | none =>
    match formats.strict? s with
    | some t => some t.utc
    | none => (formats.date? s).map (⟨·, Time.midnight⟩)

/-- The local time of a text with its offset, which is zero where the text has none. -/
def readOffsetDateTime? (formats : Formats) (s : List Char) : Option OffsetDateTime :=
  match formats.strict? s with
  | some t => some t
  | none => (readDateTime? formats s).map (⟨·, 0⟩)

end JsonReader.Calendar
