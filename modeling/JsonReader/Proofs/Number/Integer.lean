import JsonReader.Number.Integer
import JsonReader.Proofs.Grammar.Lexical
import JsonReader.Proofs.Number.Digits

/-!
# Integers of fixed width

An integer is put together digit by digit within the range of its type, and every step that would
leave the range is refused. Digits only take a number further away from zero, and every range has
zero in it, so nothing is refused but a number that is out of range as a whole: the reader has the
number that the text denotes, or nothing.

## Main definitions

* `Grammar.IntegerText` relates the text of an integer to the number it denotes.

## Main statements

* `IntType.push?_eq_some_iff`: one more digit.
* `IntType.foldlM_push?_eq_some_iff`: any number of digits, by induction.
* `IntType.read?_eq_some_iff`: a text is read as the number it denotes, if that is in range.
-/

namespace JsonReader

open Grammar (Digits)
open Number (ofDigits ne_of_isDigit)

/-! ## Texts -/

namespace Grammar

/-- The text of an integer, and the number that it denotes: one digit or more, perhaps behind a plus
or, if the type has a sign, a minus. -/
inductive IntegerText (signed : Bool) : List Char → Int → Prop
  | plain {ds : List Char} (hds : Digits ds) : IntegerText signed ds (ofDigits ds)
  | plus {ds : List Char} (hds : Digits ds) : IntegerText signed ('+' :: ds) (ofDigits ds)
  | minus {ds : List Char} (hsigned : signed = true) (hds : Digits ds) :
      IntegerText signed ('-' :: ds) (-(ofDigits ds))

variable {signed signed' : Bool} {s : List Char} {n n' : Int}

theorem not_digits_cons {c : Char} {ds : List Char} (hc : c.isDigit = false) :
    ¬ Digits (c :: ds) := fun h => by
  simp [h.2 c (by simp)] at hc

/-- The text fixes the number, whatever the type. -/
theorem IntegerText.unique (h : IntegerText signed s n) (h' : IntegerText signed' s n') :
    n = n' := by
  cases h with
  | plain hds =>
    cases h' with
    | plain => rfl
    | plus => exact absurd hds (not_digits_cons rfl)
    | minus => exact absurd hds (not_digits_cons rfl)
  | plus =>
    cases h' with
    | plain hds => exact absurd hds (not_digits_cons rfl)
    | plus => rfl
  | minus =>
    cases h' with
    | plain hds => exact absurd hds (not_digits_cons rfl)
    | minus => rfl

end Grammar

/-! ## Reading -/

namespace Number.IntType

variable {t t' : IntType} {negative : Bool} {m m' : Nat} {n : Int} {c : Char} {ds s : List Char}

theorem holds_iff : t.holds n = true ↔ t.min ≤ n ∧ n ≤ t.max := by
  simp [holds]

example : [i8, i16, i32, i64].map (fun t => (t.name, t.min, t.max)) =
    [("i8", -128, 127), ("i16", -32768, 32767), ("i32", -2147483648, 2147483647),
      ("i64", -9223372036854775808, 9223372036854775807)] := by decide +kernel

example : [u8, u16, u32, u64].map (fun t => (t.name, t.min, t.max)) =
    [("u8", 0, 255), ("u16", 0, 65535), ("u32", 0, 4294967295),
      ("u64", 0, 18446744073709551615)] := by decide +kernel

theorem min_nonpos (t : IntType) : t.min ≤ 0 := by
  rw [min]
  split
  · exact Int.neg_nonpos_of_nonneg (Int.natCast_nonneg _)
  · exact Int.le_refl 0

theorem max_nonneg (t : IntType) : 0 ≤ t.max := by
  have hpos : ∀ k, 0 < 1 <<< k := fun k => by
    rw [Nat.one_shiftLeft]
    exact Nat.two_pow_pos k
  rw [max]
  have := hpos (if t.signed then t.width - 1 else t.width)
  omega

theorem checked?_eq_some_iff {k : Int} : t.checked? k = some n ↔ n = k ∧ t.holds n = true := by
  by_cases hk : t.holds k = true
  · rw [checked?, if_pos hk, Option.some.injEq]
    exact ⟨fun h => ⟨h.symm, h ▸ hk⟩, fun h => h.1.symm⟩
  · rw [checked?, if_neg hk]
    exact ⟨fun h => (Option.some_ne_none n h.symm).elim, fun h => absurd (h.1 ▸ h.2) hk⟩

/-- The number of this magnitude on one side of zero. -/
def withSign (negative : Bool) (m : Nat) : Int := if negative then -m else m

/-- The range of a type holds all that is between zero and a number that it holds. -/
theorem holds_of_le (h : t.holds (withSign negative m') = true) (hle : m ≤ m') :
    t.holds (withSign negative m) = true := by
  have := t.min_nonpos
  have := t.max_nonneg
  rw [holds_iff] at h ⊢
  cases negative <;> simp only [withSign, if_true, Bool.false_eq_true, if_false] at h ⊢ <;> omega

/-- One more digit makes ten times the number and the digit, if that is in range. The shift by a
place alone is nearer to zero, so it is never what is refused. -/
theorem push?_eq_some_iff :
    t.push? negative (withSign negative m) c = some n ↔
      c.isDigit = true ∧ n = withSign negative (10 * m + ofDigits [c]) ∧ t.holds n = true := by
  have hshift : 10 * withSign negative m = withSign negative (10 * m) := by
    cases negative <;> simp [withSign]
  have hdigit : ∀ d : Nat, (if negative then withSign negative (10 * m) - d
      else withSign negative (10 * m) + d) = withSign negative (10 * m + d) := by
    intro d
    cases negative <;> simp only [withSign, if_true, Bool.false_eq_true, if_false] <;> omega
  by_cases hc : c.isDigit = true
  · simp only [push?, digitValue?_eq_ofDigits hc, Option.bind_eq_bind, Option.bind_some,
      Option.bind_eq_some_iff, checked?_eq_some_iff, hshift, hc, true_and]
    constructor
    · rintro ⟨_, ⟨rfl, -⟩, hn⟩
      rwa [hdigit] at hn
    · rintro ⟨rfl, hn⟩
      exact ⟨_, ⟨rfl, holds_of_le hn (Nat.le_add_right _ _)⟩, (hdigit _).symm, hn⟩
  · simp [push?, digitValue?, hc]

/-- Digits behind a number make the number that they denote together, if that is in range. By
induction on the digits: what they have made up to any place is nearer to zero than the whole, so it
is in range if the whole is. -/
theorem foldlM_push?_eq_some_iff (hm : t.holds (withSign negative m) = true) :
    ds.foldlM (t.push? negative) (withSign negative m) = some n ↔
      (∀ d ∈ ds, d.isDigit = true) ∧ n = withSign negative (m * 10 ^ ds.length + ofDigits ds) ∧
        t.holds n = true := by
  induction ds generalizing m with
  | nil =>
    simp only [List.foldlM_nil, Option.pure_def, Option.some.injEq, List.not_mem_nil,
      false_implies, implies_true, List.length_nil, pow_zero, mul_one, ofDigits_nil, add_zero,
      true_and]
    grind
  | cons d ds ih =>
    have hwhole : m * 10 ^ (d :: ds).length + ofDigits (d :: ds) =
        (10 * m + ofDigits [d]) * 10 ^ ds.length + ofDigits ds := by
      rw [ofDigits_cons, List.length_cons]
      ring
    rw [List.foldlM_cons, Option.bind_eq_bind, Option.bind_eq_some_iff, hwhole]
    constructor
    · rintro ⟨k, hk, hrest⟩
      obtain ⟨hd, rfl, hkt⟩ := push?_eq_some_iff.mp hk
      obtain ⟨hds, hn⟩ := (ih hkt).mp hrest
      exact ⟨by simpa [hd] using hds, hn⟩
    · rintro ⟨hds, rfl, hn⟩
      have hd : d.isDigit = true := hds d (by simp)
      have hle : 10 * m + ofDigits [d] ≤
          (10 * m + ofDigits [d]) * 10 ^ ds.length + ofDigits ds :=
        Nat.le_add_right_of_le (Nat.le_mul_of_pos_right _ (Nat.pow_pos (by decide)))
      have hkt := holds_of_le hn hle
      exact ⟨_, push?_eq_some_iff.mpr ⟨hd, rfl, hkt⟩,
        (ih hkt).mpr ⟨fun e he => hds e (by simp [he]), rfl, hn⟩⟩

theorem readDigits?_eq_some_iff :
    t.readDigits? negative ds = some n ↔
      Digits ds ∧ n = withSign negative (ofDigits ds) ∧ t.holds n = true := by
  have hzero : t.holds (withSign negative 0) = true := by
    have := t.min_nonpos
    have := t.max_nonneg
    rw [holds_iff]
    cases negative <;> simpa [withSign] using And.intro ‹_› ‹_›
  have hstart : withSign negative 0 = 0 := by cases negative <;> rfl
  have hfold : ds.foldlM (t.push? negative) 0 = some n ↔
      (∀ d ∈ ds, d.isDigit = true) ∧ n = withSign negative (ofDigits ds) ∧ t.holds n = true := by
    simpa only [hstart, Nat.zero_mul, Nat.zero_add] using
      foldlM_push?_eq_some_iff (n := n) hzero
  rw [readDigits?]
  split
  · next hempty => simp [Digits, List.isEmpty_iff.mp hempty]
  · next hempty =>
    have hne : ds ≠ [] := by simpa using hempty
    rw [hfold, Digits, and_assoc, and_iff_right hne]

/-- A text is read as the number that it denotes, if that is in range. -/
theorem read?_eq_some_iff :
    t.read? s = some n ↔ Grammar.IntegerText t.signed s n ∧ t.holds n = true := by
  constructor
  · intro h
    unfold read? at h
    split at h
    · obtain ⟨hds, rfl, hn⟩ := readDigits?_eq_some_iff.mp h
      exact ⟨.plus hds, hn⟩
    · split at h
      · next hsigned =>
        obtain ⟨hds, rfl, hn⟩ := readDigits?_eq_some_iff.mp h
        exact ⟨.minus hsigned hds, hn⟩
      · cases h
    · obtain ⟨hds, rfl, hn⟩ := readDigits?_eq_some_iff.mp h
      exact ⟨.plain hds, hn⟩
  · rintro ⟨htext, hn⟩
    cases htext with
    | @plain ds hds =>
      obtain ⟨c, cs, rfl⟩ := List.exists_cons_of_ne_nil hds.1
      have hc := hds.2 c (by simp)
      have hread : t.read? (c :: cs) = t.readDigits? false (c :: cs) := by
        simp [read?, ne_of_isDigit hc]
      exact hread.trans (readDigits?_eq_some_iff.mpr ⟨hds, rfl, hn⟩)
    | plus hds => exact readDigits?_eq_some_iff.mpr ⟨hds, rfl, hn⟩
    | minus hsigned hds =>
      rw [read?, if_pos hsigned]
      exact readDigits?_eq_some_iff.mpr ⟨hds, rfl, hn⟩

/-- A plus does not change the number. -/
theorem eq_ofDigits_of_read? {sign : List Char} (hsign : sign = [] ∨ sign = ['+'])
    (hds : Digits ds) (h : t.read? (sign ++ ds) = some n) : n = ofDigits ds := by
  obtain ⟨htext, -⟩ := read?_eq_some_iff.mp h
  rcases hsign with rfl | rfl
  · exact htext.unique (Grammar.IntegerText.plain hds : Grammar.IntegerText false _ _)
  · exact htext.unique (Grammar.IntegerText.plus hds : Grammar.IntegerText false _ _)

/-- Of two types with a sign, or without one, the wider one holds whatever the other one holds. -/
theorem holds_of_width_le (hsigned : t.signed = t'.signed) (hwidth : t.width ≤ t'.width)
    (h : t.holds n = true) : t'.holds n = true := by
  have hmono : ∀ {k l : Nat}, k ≤ l → 1 <<< k ≤ 1 <<< l := fun hle => by
    rw [Nat.one_shiftLeft, Nat.one_shiftLeft]
    exact Nat.pow_le_pow_right (by decide) hle
  have hwhole := hmono hwidth
  have hhalf := hmono (Nat.sub_le_sub_right hwidth 1)
  rw [holds_iff, min, max] at h ⊢
  rw [hsigned] at h
  cases hs : t'.signed <;> simp only [hs, if_true, Bool.false_eq_true, if_false] at h ⊢ <;> omega

end Number.IntType

end JsonReader
