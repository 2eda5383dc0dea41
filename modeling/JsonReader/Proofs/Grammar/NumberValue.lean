import JsonReader.Number.ScaledDecimal
import JsonReader.Proofs.Lexeme.NumberLiteral
import JsonReader.Proofs.Number.Digits
import Mathlib.Algebra.Order.Field.Rat
import Mathlib.Tactic.FieldSimp

/-!
# The number that a text denotes

The exact value of the text of a number, with its sign, its fraction and its exponent.

## Main definitions

* `Grammar.significand` and `Grammar.exponentDigits` are the parts before and behind the exponent
  mark.
* `Grammar.numberValue` is the value.

## Main statements

* `Grammar.significandValue_append`, `Grammar.numberValue_append`: the value by the parts of the
  grammar.
* `Grammar.NumberText.append_zero`: an exponent of zero keeps the value.
-/

namespace JsonReader.Grammar

open Number (ofDigits ne_of_isDigit)
open Number.ScaledDecimal (isExponentMark)

/-! ## Values -/

/-- The number that a text denotes up to an exponent mark. -/
def significand (s : List Char) : List Char := s.takeWhile (!isExponentMark ·)

/-- What stands behind the exponent mark. -/
def exponentDigits (s : List Char) : List Char := (s.dropWhile (!isExponentMark ·)).drop 1

/-- Digits with at most one point among them: every digit behind the point divides by ten. -/
def pointedValue (s : List Char) : ℚ :=
  let fraction := (s.dropWhile (· != '.')).drop 1
  ofDigits (s.takeWhile (· != '.') ++ fraction) / 10 ^ fraction.length

/-- A number without an exponent. -/
def significandValue : List Char → ℚ
  | '-' :: s => -pointedValue s
  | s => pointedValue s

/-- The exponent, whose sign may be either one. -/
def exponentValue : List Char → ℤ
  | '-' :: ds => -(ofDigits ds : ℤ)
  | '+' :: ds => ofDigits ds
  | ds => ofDigits ds

/-- The number that a text denotes. -/
def numberValue (s : List Char) : ℚ :=
  significandValue (significand s) * 10 ^ exponentValue (exponentDigits s)

/-! ## Parts -/

variable {minus whole fraction exponent : List Char}

theorem WholePart.digits (h : WholePart whole) : Digits whole := by
  rcases h with rfl | ⟨hdigits, -⟩
  · exact ⟨by simp, by simp⟩
  · exact hdigits

theorem FractionPart.digits (h : FractionPart fraction) :
    ∀ d ∈ fraction.drop 1, d.isDigit = true := by
  rcases h with rfl | ⟨ds, hds, rfl⟩
  · simp
  · exact hds.2

theorem pointedValue_append (hwhole : WholePart whole) (hfraction : FractionPart fraction) :
    pointedValue (whole ++ fraction) =
      ofDigits (whole ++ fraction.drop 1) / 10 ^ (fraction.drop 1).length := by
  have hpoint : Stops (· != '.') fraction := by
    rcases hfraction with rfl | ⟨ds, -, rfl⟩
    · exact stops_nil _
    · exact stops_cons rfl
  have hdigits : ∀ d ∈ whole, (d != '.') = true := fun d hd =>
    bne_iff_ne.mpr (ne_of_isDigit (hwhole.digits.2 d hd) rfl)
  obtain ⟨hrun, hrest⟩ := longestRun_eq_iff.mpr ⟨hdigits, hpoint, rfl⟩
  rw [pointedValue, hrun, hrest]

theorem significandValue_append (hminus : minus = [] ∨ minus = ['-']) (hwhole : WholePart whole)
    (hfraction : FractionPart fraction) :
    significandValue (minus ++ whole ++ fraction) =
      (if minus = [] then 1 else -1) *
        (ofDigits (whole ++ fraction.drop 1) / 10 ^ (fraction.drop 1).length) := by
  rw [← pointedValue_append hwhole hfraction]
  rcases hminus with rfl | rfl
  · obtain ⟨d, ds, rfl, hd⟩ := exists_cons_of_wholePart hwhole
    rw [if_pos rfl, one_mul]
    simp [significandValue, ne_of_isDigit hd]
  · rw [if_neg (by simp), neg_one_mul]
    rfl

/-- The part before the exponent mark, and the mark with what stands behind it. -/
theorem significand_append (hminus : minus = [] ∨ minus = ['-']) (hwhole : WholePart whole)
    (hfraction : FractionPart fraction) (hexponent : ExponentPart exponent) :
    significand (minus ++ whole ++ fraction ++ exponent) = minus ++ whole ++ fraction ∧
      (minus ++ whole ++ fraction ++ exponent).dropWhile (!isExponentMark ·) = exponent := by
  have hmark : Stops (!isExponentMark ·) exponent := by
    rcases hexponent with rfl | ⟨mark, sign, ds, rfl | rfl, -, -, rfl⟩
    · exact stops_nil _
    · exact stops_cons rfl
    · exact stops_cons rfl
  have hdigit : ∀ d : Char, d.isDigit = true → (!isExponentMark d) = true := by
    intro d hd
    simp [isExponentMark, ne_of_isDigit hd]
  have hplain : ∀ c ∈ minus ++ whole ++ fraction, (!isExponentMark c) = true := by
    intro c hc
    simp only [List.mem_append] at hc
    rcases hc with (hc | hc) | hc
    · rcases hminus with rfl | rfl
      · simp at hc
      · rw [List.mem_singleton.mp hc]
        rfl
    · exact hdigit c (hwhole.digits.2 c hc)
    · rcases hfraction with rfl | ⟨ds, hds, rfl⟩
      · simp at hc
      · rcases List.mem_cons.mp hc with rfl | hc
        · rfl
        · exact hdigit c (hds.2 c hc)
  exact longestRun_eq_iff.mpr ⟨hplain, hmark, rfl⟩

theorem numberValue_append (hminus : minus = [] ∨ minus = ['-']) (hwhole : WholePart whole)
    (hfraction : FractionPart fraction) (hexponent : ExponentPart exponent) :
    numberValue (minus ++ whole ++ fraction ++ exponent) =
      significandValue (minus ++ whole ++ fraction) * 10 ^ exponentValue (exponent.drop 1) := by
  obtain ⟨hsignificand, hrest⟩ := significand_append hminus hwhole hfraction hexponent
  rw [numberValue, hsignificand, exponentDigits, hrest]

section Plain

variable {s : List Char}

/-- A number without an exponent mark has no exponent. -/
theorem NumberText.exists_plain (hs : NumberText s) (hplain : significand s = s) :
    ∃ minus whole fraction, (minus = [] ∨ minus = ['-']) ∧ WholePart whole ∧
      FractionPart fraction ∧ s = minus ++ whole ++ fraction := by
  obtain ⟨hminus, hwhole, hfraction, hexponent⟩ := hs
  rename_i minus whole fraction exponent
  have hsignificand := (significand_append hminus hwhole hfraction hexponent).1
  obtain rfl : exponent = [] := by simpa using hsignificand.symm.trans hplain
  exact ⟨minus, whole, fraction, hminus, hwhole, hfraction, List.append_nil _⟩

theorem numberValue_of_significand_eq (hplain : significand s = s) :
    numberValue s = significandValue s := by
  have hsplit : significand s ++ s.dropWhile (!isExponentMark ·) = s :=
    List.takeWhile_append_dropWhile
  rw [hplain] at hsplit
  rw [numberValue, hplain, exponentDigits, List.append_right_eq_self.mp hsplit]
  simp [exponentValue]

/-- An exponent of zero may be put behind a number without one. -/
theorem NumberText.append_zero (hs : NumberText s) (hplain : significand s = s) :
    NumberText (s ++ ['e', '0']) ∧ significand (s ++ ['e', '0']) = s ∧
      numberValue (s ++ ['e', '0']) = numberValue s := by
  have hvalue := numberValue_of_significand_eq hplain
  obtain ⟨minus, whole, fraction, hminus, hwhole, hfraction, rfl⟩ := hs.exists_plain hplain
  have hzero : ExponentPart ['e', '0'] :=
    .inr ⟨'e', [], ['0'], .inl rfl, .inl rfl, ⟨by simp, by simp⟩, rfl⟩
  refine ⟨.mk hminus hwhole hfraction hzero,
    (significand_append hminus hwhole hfraction hzero).1, ?_⟩
  rw [numberValue_append hminus hwhole hfraction hzero, hvalue]
  simp [exponentValue, ofDigits]

end Plain

end JsonReader.Grammar
