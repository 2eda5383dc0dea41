import JsonReader.Calendar.Reader
import JsonReader.Proofs.Calendar.Timeline
import JsonReader.Proofs.Grammar.Calendar
import JsonReader.Proofs.Lexeme.Basic
import Mathlib.Data.List.Basic

/-!
# The texts that the readers of dates and times take

Each reader takes a part of its format off the front, and the parts make the format. The dates and
times that are read exist.

## Main definitions

* `Takes` says in what form a reader has taken text off the front.

## Main statements

* `localText_of_readLocal?`, `strictText_of_readStrict?`, `lenientDate_of_readDate?`: the texts and
  what is read from them.
-/

namespace JsonReader.Calendar

open Grammar
open Number (ofDigits natural?)

/-- A text of the form is taken off the front. -/
def Takes (form : List Char → Prop) (s rest : List Char) : Prop :=
  ∃ used, s = used ++ rest ∧ form used

variable {s rest : List Char}

namespace Takes

variable {year number : List Char → Prop} {s' s'' s₃ : List Char}

/-- The parts of a date, one after the other. -/
theorem date (hy : Takes year s ('-' :: s')) (hm : Takes number s' ('-' :: s''))
    (hd : Takes number s'' rest) : Takes (DateText year number) s rest := by
  obtain ⟨y, rfl, hy⟩ := hy
  obtain ⟨m, rfl, hm⟩ := hm
  obtain ⟨d, rfl, hd⟩ := hd
  exact ⟨y ++ '-' :: (m ++ '-' :: d), by simp, y, m, d, rfl, hy, hm, hd⟩

/-- The parts of a time of day, one after the other. -/
theorem time (hh : Takes number s (':' :: s')) (hm : Takes number s' (':' :: s''))
    (hsec : Takes number s'' s₃) (hfraction : Takes FractionPart s₃ rest) :
    Takes (TimeText number) s rest := by
  obtain ⟨h, rfl, hh⟩ := hh
  obtain ⟨m, rfl, hm⟩ := hm
  obtain ⟨sec, rfl, hsec⟩ := hsec
  obtain ⟨fraction, rfl, hfraction⟩ := hfraction
  exact ⟨h ++ ':' :: (m ++ ':' :: (sec ++ fraction)), by simp, h, m, sec, fraction, rfl, hh, hm,
    hsec, hfraction⟩

end Takes

/-! ## Lenient formats -/

section Lenient

theorem takes_takeNumber? {most : Option Nat} {n : Nat}
    (h : takeNumber? most s = some (n, rest)) :
    Takes (fun ds => Digits ds ∧ ∀ m, most = some m → ds.length ≤ m) s rest := by
  have hrun : ∀ taken, taken <+: s.takeWhile Char.isDigit → ¬ taken.isEmpty = true →
      s = taken ++ s.drop taken.length ∧ Digits taken := by
    intro taken htaken hne
    refine ⟨?_, by simpa using hne, fun c hc => ?_⟩
    · exact (List.prefix_iff_eq_append.mp (htaken.trans (List.takeWhile_prefix _))).symm
    · exact List.all_eq_true.mp List.all_takeWhile c (htaken.subset hc)
  unfold takeNumber? at h
  cases most with
  | none =>
    dsimp only at h
    split at h
    · cases h
    · next hne =>
      cases h
      obtain ⟨hs, hds⟩ := hrun _ List.prefix_rfl hne
      exact ⟨_, hs, hds, by simp⟩
  | some most =>
    dsimp only at h
    split at h
    · cases h
    · next hne =>
      cases h
      obtain ⟨hs, hds⟩ := hrun _ (List.take_prefix _ _) hne
      refine ⟨_, hs, hds, fun m hm => ?_⟩
      cases hm
      exact List.length_take_le _ _

theorem eq_cons_of_takeChar? {c : Char} (h : takeChar? c s = some rest) : s = c :: rest := by
  cases s with
  | nil => cases h
  | cons d s =>
    rw [takeChar?] at h
    split at h
    · next hc => rw [hc, Option.some.inj h]
    · cases h

/-- The blanks in front of a number. -/
theorem exists_blanks (s : List Char) :
    ∃ blanks, s = blanks ++ s.dropWhile Text.isBlank ∧ ∀ c ∈ blanks, Text.isBlank c = true := by
  obtain ⟨hrun, -, hs⟩ := longestRun_eq_iff.mp (⟨rfl, rfl⟩ : s.takeWhile Text.isBlank = _ ∧ _)
  exact ⟨s.takeWhile Text.isBlank, hs, hrun⟩

theorem takes_takeTwo? {n : Nat} (h : takeTwo? s = some (n, rest)) : Takes ShortNumber s rest := by
  obtain ⟨blanks, hs, hblanks⟩ := exists_blanks s
  obtain ⟨ds, hds, hdigits, hlength⟩ := takes_takeNumber? h
  refine ⟨blanks ++ ds, ?_, blanks, ds, rfl, hblanks, hdigits, hlength 2 rfl⟩
  rw [List.append_assoc, ← hds]
  exact hs

theorem takes_takeYear? {year : Int} (h : takeYear? s = some (year, rest)) :
    Takes YearText s rest := by
  obtain ⟨blanks, hs, hblanks⟩ := exists_blanks s
  have hsigned : ∀ sign ds : List Char, s.dropWhile Text.isBlank = sign ++ (ds ++ rest) →
      SignPart sign → Digits ds → (sign = [] → ds.length ≤ 4) → Takes YearText s rest := by
    intro sign ds hyear hsign hds hlength
    refine ⟨blanks ++ (sign ++ ds), ?_, blanks, sign, ds, rfl, hblanks, hsign, hds, hlength⟩
    rw [List.append_assoc, List.append_assoc, ← hyear]
    exact hs
  rw [takeYear?] at h
  split at h
  · next hminus =>
    simp only [Option.map_eq_some_iff, Prod.exists, Prod.mk.injEq] at h
    obtain ⟨n, rest, hn, -, rfl⟩ := h
    obtain ⟨ds, rfl, hds, -⟩ := takes_takeNumber? hn
    exact hsigned ['-'] ds hminus (.inr (.inr rfl)) hds (by simp)
  · next hplus =>
    simp only [Option.map_eq_some_iff, Prod.exists, Prod.mk.injEq] at h
    obtain ⟨n, rest, hn, -, rfl⟩ := h
    obtain ⟨ds, rfl, hds, -⟩ := takes_takeNumber? hn
    exact hsigned ['+'] ds hplus (.inr (.inl rfl)) hds (by simp)
  · simp only [Option.map_eq_some_iff, Prod.exists, Prod.mk.injEq] at h
    obtain ⟨n, rest, hn, -, rfl⟩ := h
    obtain ⟨ds, hplain, hds, hlength⟩ := takes_takeNumber? hn
    exact hsigned [] ds hplain (.inl rfl) hds fun _ => hlength 4 rfl

theorem takes_takeFraction? {n : Nat} (h : takeFraction? s = some (n, rest)) :
    Takes FractionPart s rest := by
  unfold takeFraction? at h
  split at h
  · next s =>
    dsimp only at h
    split at h
    · cases h
    · next hne =>
      cases h
      obtain ⟨hrun, -, hs⟩ := longestRun_eq_iff.mp (⟨rfl, rfl⟩ : s.takeWhile Char.isDigit = _ ∧ _)
      refine ⟨'.' :: s.takeWhile Char.isDigit, ?_, .inr ⟨_, ⟨by simpa using hne, hrun⟩, rfl⟩⟩
      rw [List.cons_append, ← hs]
  · cases h
    exact ⟨[], rfl, .inl rfl⟩

theorem takes_takeDate? {d : Date} (h : takeDate? s = some (d, rest)) :
    Takes LenientDate s rest ∧ d.Valid := by
  simp only [takeDate?, bind, Option.bind_eq_some_iff, Option.some.injEq] at h
  obtain ⟨⟨year, s₁⟩, hyear, s₂, hdash, ⟨month, s₃⟩, hmonth, s₄, hdash', ⟨day, s₅⟩, hday, date,
    hdate, hd⟩ := h
  cases hd
  obtain rfl := eq_cons_of_takeChar? hdash
  obtain rfl := eq_cons_of_takeChar? hdash'
  exact ⟨.date (takes_takeYear? hyear) (takes_takeTwo? hmonth) (takes_takeTwo? hday),
    Date.valid_of_make? hdate⟩

theorem takes_takeTime? {t : Time} (h : takeTime? s = some (t, rest)) :
    Takes (TimeText ShortNumber) s rest ∧ t.hour ≤ 23 ∧ t.minute ≤ 59 := by
  simp only [takeTime?, bind, Option.bind_eq_some_iff, Option.some.injEq] at h
  obtain ⟨⟨hour, s₁⟩, hhour, s₂, hcolon, ⟨minute, s₃⟩, hminute, s₄, hcolon', ⟨second, s₅⟩, hsecond,
    ⟨nanosecond, s₆⟩, hfraction, time, htime, ht⟩ := h
  cases ht
  obtain rfl := eq_cons_of_takeChar? hcolon
  obtain rfl := eq_cons_of_takeChar? hcolon'
  exact ⟨.time (takes_takeTwo? hhour) (takes_takeTwo? hminute) (takes_takeTwo? hsecond)
    (takes_takeFraction? hfraction), Time.le_of_make? htime⟩

theorem localText_of_readLocal? {t : DateTime} (h : readLocal? s = some t) :
    LocalText s ∧ t.Valid := by
  simp only [readLocal?, bind, Option.bind_eq_some_iff] at h
  obtain ⟨⟨date, s₁⟩, hdate, s₂, hsep, ⟨time, s₃⟩, htime, hend⟩ := h
  obtain ⟨⟨front, rfl, hfront⟩, hvalid⟩ := takes_takeDate? hdate
  obtain rfl := eq_cons_of_takeChar? hsep
  obtain ⟨⟨behind, rfl, hbehind⟩, hhour, hminute⟩ := takes_takeTime? htime
  cases s₃ with
  | cons c s₃ => cases hend
  | nil =>
    cases hend
    exact ⟨⟨front, behind, by simp, hfront, hbehind⟩, hvalid, hhour, hminute⟩

theorem lenientDate_of_readDate? {d : Date} (h : readDate? s = some d) :
    LenientDate s ∧ d.Valid := by
  simp only [readDate?, Option.bind_eq_some_iff] at h
  obtain ⟨⟨date, rest⟩, hdate, hend⟩ := h
  obtain ⟨⟨used, rfl, hused⟩, hvalid⟩ := takes_takeDate? hdate
  cases rest with
  | cons c rest => cases hend
  | nil =>
    cases hend
    exact ⟨by rwa [List.append_nil], hvalid⟩

end Lenient

/-! ## The strict format -/

section Strict

theorem exists_of_takeExactly? {count n : Nat} (h : takeExactly? count s = some (n, rest)) :
    ∃ ds, s = ds ++ rest ∧ FixedDigits count ds ∧ n = ofDigits ds := by
  rw [takeExactly?] at h
  split at h
  · next hlength =>
    simp only [Option.map_eq_some_iff, Prod.mk.injEq] at h
    obtain ⟨m, hm, rfl, rfl⟩ := h
    rw [natural?] at hm
    split at hm
    · next hdigits =>
      cases hm
      rw [Bool.and_eq_true, List.all_eq_true] at hdigits
      exact ⟨s.take count, (List.take_append_drop count s).symm, ⟨hlength, hdigits.2⟩, rfl⟩
    · cases hm
  · cases h

theorem takes_takeExactly? {count n : Nat} (h : takeExactly? count s = some (n, rest)) :
    Takes (FixedDigits count) s rest := by
  obtain ⟨ds, hs, hds, -⟩ := exists_of_takeExactly? h
  exact ⟨ds, hs, hds⟩

theorem exists_of_takeClock? {n : Int} (h : takeClock? s = some (n, rest)) :
    ∃ h₁ h₂ m₁ m₂, s = h₁ :: h₂ :: ':' :: m₁ :: m₂ :: rest ∧
      (∀ d ∈ [h₁, h₂, m₁, m₂], d.isDigit = true) ∧
      n = 60 * ofDigits [h₁, h₂] + ofDigits [m₁, m₂] ∧ 0 ≤ n ∧ n < minutesPerDay := by
  simp only [takeClock?, bind, Option.bind_eq_some_iff] at h
  obtain ⟨⟨hour, s₁⟩, hhour, s₂, hcolon, ⟨minute, s₃⟩, hminute, h⟩ := h
  obtain ⟨hs, rfl, ⟨hhs, hhours⟩, rfl⟩ := exists_of_takeExactly? hhour
  obtain rfl := eq_cons_of_takeChar? hcolon
  obtain ⟨ms, rfl, ⟨hms, hminutes⟩, rfl⟩ := exists_of_takeExactly? hminute
  obtain ⟨h₁, h₂, rfl⟩ := List.length_eq_two.mp hhs
  obtain ⟨m₁, m₂, rfl⟩ := List.length_eq_two.mp hms
  dsimp only at h
  split at h
  · next hrange =>
    cases h
    refine ⟨h₁, h₂, m₁, m₂, rfl, fun d hd => ?_, rfl, by omega, ?_⟩
    · have hparts : d ∈ [h₁, h₂] ++ [m₁, m₂] := hd
      exact (List.mem_append.mp hparts).elim (hhours d) (hminutes d)
    · rw [minutesPerDay]
      omega
  · cases h

/-- What is taken of the text is an offset of less than a day. -/
theorem offsetText_of_takeOffset? {n : Int} (h : takeOffset? s = some (n, [])) :
    OffsetText s n ∧ -minutesPerDay < n ∧ n < minutesPerDay := by
  unfold takeOffset? at h
  split at h
  · next c rest =>
    split at h
    · next hz =>
      cases h
      exact ⟨.utc hz, by decide, by decide⟩
    · split at h
      · next hplus =>
        obtain ⟨h₁, h₂, m₁, m₂, rfl, hdigits, rfl, hpos, hlt⟩ := exists_of_takeClock? h
        rw [← Int.one_mul (60 * _ + _)]
        exact ⟨.clock (.inl ⟨hplus, rfl⟩) hdigits, by rw [minutesPerDay]; omega, by omega⟩
      · split at h
        · next hminus =>
          simp only [Option.map_eq_some_iff, Prod.exists, Prod.mk.injEq] at h
          obtain ⟨m, rest, hclock, rfl, rfl⟩ := h
          obtain ⟨h₁, h₂, m₁, m₂, rfl, hdigits, rfl, hpos, hlt⟩ := exists_of_takeClock? hclock
          have htext := OffsetText.clock (.inr ⟨hminus, rfl⟩) hdigits
          rw [minutesPerDay] at hlt ⊢
          refine ⟨?_, by omega, by omega⟩
          rwa [Int.neg_one_mul] at htext
        · cases h
  · cases h

theorem exists_of_takeSeparator? (h : takeSeparator? s = some rest) :
    ∃ c, s = c :: rest ∧ Separator c := by
  unfold takeSeparator? at h
  split at h
  · next c s =>
    split at h
    · next hc =>
      cases h
      exact ⟨c, rfl, hc⟩
    · cases h
  · cases h

theorem takes_takeStrictDate? {d : Date} (h : takeStrictDate? s = some (d, rest)) :
    Takes (DateText (FixedDigits 4) (FixedDigits 2)) s rest ∧ d.Valid := by
  simp only [takeStrictDate?, bind, Option.bind_eq_some_iff, Option.some.injEq] at h
  obtain ⟨⟨year, s₁⟩, hyear, s₂, hdash, ⟨month, s₃⟩, hmonth, s₄, hdash', ⟨day, s₅⟩, hday, date,
    hdate, hd⟩ := h
  cases hd
  obtain rfl := eq_cons_of_takeChar? hdash
  obtain rfl := eq_cons_of_takeChar? hdash'
  exact ⟨.date (takes_takeExactly? hyear) (takes_takeExactly? hmonth) (takes_takeExactly? hday),
    Date.valid_of_make? hdate⟩

theorem takes_takeStrictTime? {t : Time} (h : takeStrictTime? s = some (t, rest)) :
    Takes (TimeText (FixedDigits 2)) s rest ∧ t.hour ≤ 23 ∧ t.minute ≤ 59 := by
  simp only [takeStrictTime?, bind, Option.bind_eq_some_iff, Option.some.injEq] at h
  obtain ⟨⟨hour, s₁⟩, hhour, s₂, hcolon, ⟨minute, s₃⟩, hminute, s₄, hcolon', ⟨second, s₅⟩, hsecond,
    ⟨nanosecond, s₆⟩, hfraction, time, htime, ht⟩ := h
  cases ht
  obtain rfl := eq_cons_of_takeChar? hcolon
  obtain rfl := eq_cons_of_takeChar? hcolon'
  exact ⟨.time (takes_takeExactly? hhour) (takes_takeExactly? hminute) (takes_takeExactly? hsecond)
    (takes_takeFraction? hfraction), Time.le_of_make? htime⟩

theorem strictText_of_readStrict? {t : OffsetDateTime} (h : readStrict? s = some t) :
    StrictText s t.offsetMinutes ∧ t.here.Valid ∧ -minutesPerDay < t.offsetMinutes ∧
      t.offsetMinutes < minutesPerDay := by
  simp only [readStrict?, bind, Option.bind_eq_some_iff] at h
  obtain ⟨⟨date, s₁⟩, hdate, s₂, hsep, ⟨time, s₃⟩, htime, ⟨offset, s₄⟩, hoffset, hend⟩ := h
  obtain ⟨⟨front, rfl, hfront⟩, hvalid⟩ := takes_takeStrictDate? hdate
  obtain ⟨separator, rfl, hseparator⟩ := exists_of_takeSeparator? hsep
  obtain ⟨⟨behind, rfl, hbehind⟩, hhour, hminute⟩ := takes_takeStrictTime? htime
  cases s₄ with
  | cons c s₄ => cases hend
  | nil =>
    cases hend
    obtain ⟨htext, hlo, hhi⟩ := offsetText_of_takeOffset? hoffset
    exact ⟨⟨front, separator, behind, s₃, rfl, hseparator, hfront, hbehind, htext⟩,
      ⟨hvalid, hhour, hminute⟩, hlo, hhi⟩

end Strict

end JsonReader.Calendar
