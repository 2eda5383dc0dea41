import JsonReader.Cursor.Scalar
import JsonReader.Proofs.Number.Integer
import JsonReader.Proofs.Number.ScaledDecimal
import Mathlib.Data.List.TakeWhile
import Mathlib.Tactic.Positivity

/-!
# Where scaled decimals are exact

A number without an exponent is read exactly or not at all. Before an exponent the number is
rounded where it does not fit, and only then is the exponent taken into account. So the value is
exact if and only if the number before the exponent is one that fits. This holds of every reader
that keeps the rules of its two notations.

## Main definitions

* `ScaledDecimal.value` is the exact value, `ScaledDecimal.Representable` holds of the values.
* `ScaledDecimal.Reader.Lawful` says what is known of a reader.

## Main statements

* `ScaledDecimal.fits_iff_exists_kept`: a number fits where all digits in excess are zeros.
* `ScaledDecimal.Reader.Lawful.value_of_read?`: what the rules say of the value that is read.
* `ScaledDecimal.Reader.lawful_standard`: the reader of numbers of 96 bits keeps the rules.
* `Cursor.value_of_decimal?`: when the value that is read is the one that the text denotes.
* `Cursor.not_forall_value_of_decimal?`: it is not always.
-/

namespace JsonReader

namespace Number.ScaledDecimal

open Grammar

/-! ## Values -/

/-- The number `± coefficient / 10 ^ scale`. -/
def value (d : ScaledDecimal) : ℚ :=
  (if d.negative then -1 else 1) * (d.coefficient / 10 ^ d.scale)

/-- The number is the value of a scaled decimal. -/
def Representable (q : ℚ) : Prop :=
  ∃ d : ScaledDecimal, d.coefficient < bound ∧ d.scale ≤ maxScale ∧ d.value = q

section Values

variable {b b' : Bool} {m k n l : Nat}

theorem value_ofParts :
    (ofParts b m k).value = (if b then -1 else 1) * ((m : ℚ) / 10 ^ k) := by
  by_cases hm : m = 0
  · simp [value, ofParts, hm]
  · simp [value, ofParts, hm]

theorem div_eq_div_iff_mul_eq_mul :
    (m : ℚ) / 10 ^ k = n / 10 ^ l ↔ m * 10 ^ l = n * 10 ^ k := by
  rw [div_eq_div_iff (by positivity) (by positivity)]
  exact_mod_cast Iff.rfl

/-- The signs are not compared: numbers that are equal have equal amounts. -/
theorem div_eq_div_of_signed_eq
    (h : (if b then -1 else 1) * ((m : ℚ) / 10 ^ k) = (if b' then -1 else 1) * ((n : ℚ) / 10 ^ l)) :
    (m : ℚ) / 10 ^ k = n / 10 ^ l := by
  have hm : 0 ≤ (m : ℚ) / 10 ^ k := by positivity
  have hn : 0 ≤ (n : ℚ) / 10 ^ l := by positivity
  have habs := congrArg abs h
  cases b <;> cases b' <;> simpa [abs_of_nonneg hm, abs_of_nonneg hn] using habs

theorem representable_iff_fits :
    Representable ((if b then -1 else 1) * ((n : ℚ) / 10 ^ l)) ↔ Fits n l := by
  constructor
  · rintro ⟨d, hcoefficient, hscale, hvalue⟩
    exact ⟨d.coefficient, d.scale, hcoefficient, hscale,
      div_eq_div_iff_mul_eq_mul.mp (div_eq_div_of_signed_eq hvalue)⟩
  · rintro ⟨m, k, hm, hk, heq⟩
    refine ⟨⟨b, m, k⟩, hm, hk, ?_⟩
    rw [value, div_eq_div_iff_mul_eq_mul.mpr heq]

end Values

/-! ## Digits in excess -/

section Excess

variable {whole ds excess : List Char}

theorem ofDigits_append_zeros (hexcess : ∀ e ∈ excess, e = '0') :
    ofDigits (ds ++ excess) = ofDigits ds * 10 ^ excess.length := by
  have hzero : ofDigits excess = 0 := by
    induction excess with
    | nil => rfl
    | cons e es ih =>
      rw [ofDigits_cons, hexcess e (by simp), ih fun d hd => hexcess d (by simp [hd])]
      simp [ofDigits]
  rw [ofDigits_append, hzero, Nat.add_zero]

/-- A number fits where nothing but zeros is in excess. By induction on the digits behind the point,
from the last one on: where they are too many, the last one is a zero. -/
theorem fits_iff_exists_kept (hds : ∀ d ∈ ds, d.isDigit = true) :
    Fits (ofDigits (whole ++ ds)) ds.length ↔
      ∃ kept excess, ds = kept ++ excess ∧ (∀ e ∈ excess, e = '0') ∧ kept.length ≤ maxScale ∧
        ofDigits (whole ++ kept) < bound := by
  constructor
  · intro h
    induction ds using List.reverseRecOn with
    | nil =>
      obtain ⟨m, k, hm, -, heq⟩ := h
      have hle : ofDigits whole ≤ ofDigits whole * 10 ^ k :=
        Nat.le_mul_of_pos_right _ (Nat.pow_pos (by decide))
      simp only [List.append_nil, List.length_nil, pow_zero, mul_one] at heq
      exact ⟨[], [], rfl, by simp, by simp, by rw [List.append_nil]; omega⟩
    | append_singleton ds d ih =>
      have hd : d.isDigit = true := hds d (by simp)
      have hlast : ofDigits (whole ++ (ds ++ [d])) =
          ofDigits (whole ++ ds) * 10 + ofDigits [d] := by
        rw [← List.append_assoc, ofDigits_append]
        rfl
      by_cases hroom : ds.length + 1 ≤ maxScale ∧ ofDigits (whole ++ (ds ++ [d])) < bound
      · exact ⟨ds ++ [d], [], by simp, by simp, by simpa using hroom.1, hroom.2⟩
      · rw [List.length_append, List.length_singleton, hlast] at h
        rw [hlast] at hroom
        obtain ⟨hzero, hfits⟩ := h.of_no_room (ofDigits_singleton_lt hd) hroom
        obtain ⟨kept, excess, rfl, hexcess, hlength, hbound⟩ :=
          ih (fun e he => hds e (by simp [he])) hfits
        refine ⟨kept, excess ++ [d], by simp, fun e he => ?_, hlength, hbound⟩
        rcases List.mem_append.mp he with he | he
        · exact hexcess e he
        · rw [List.mem_singleton.mp he]
          exact eq_zero_of_ofDigits_eq_zero hd hzero
  · intro h
    obtain ⟨kept, excess, rfl, hexcess, hlength, hbound⟩ := h
    refine ⟨ofDigits (whole ++ kept), kept.length, hbound, hlength, ?_⟩
    rw [← List.append_assoc, ofDigits_append_zeros hexcess, List.length_append]
    ring

end Excess

/-! ## Rules of a reader -/

/-- What is known of a reader for which `rounded?` reads what stands before an exponent. -/
structure Reader.Lawful (reader : Reader) (rounded? : List Char → Option ScaledDecimal) : Prop where
  /-- Without an exponent the digits make the coefficient, and those behind the point are counted.
  What does not fit is refused. -/
  plain_parts : ∀ {minus whole fraction : List Char} {d : ScaledDecimal},
    minus = [] ∨ minus = ['-'] → WholePart whole → FractionPart fraction →
    reader.plain? (minus ++ whole ++ fraction) = some d →
    (fraction.drop 1).length ≤ maxScale ∧ ofDigits (whole ++ fraction.drop 1) < bound ∧
      d = ofParts (minus ≠ []) (ofDigits (whole ++ fraction.drop 1)) (fraction.drop 1).length
  /-- Rounding gives a decimal in bounds. -/
  rounded_bounds : ∀ {minus whole fraction : List Char} {d : ScaledDecimal},
    minus = [] ∨ minus = ['-'] → WholePart whole → FractionPart fraction →
    rounded? (minus ++ whole ++ fraction) = some d → d.coefficient < bound ∧ d.scale ≤ maxScale
  /-- Only digits in excess of those that fit are rounded, and zeros make no difference there. -/
  rounded_zeros : ∀ {minus whole fraction kept excess : List Char} {d : ScaledDecimal},
    minus = [] ∨ minus = ['-'] → WholePart whole → FractionPart fraction →
    fraction.drop 1 = kept ++ excess → (∀ e ∈ excess, e = '0') → kept.length ≤ maxScale →
    ofDigits (whole ++ kept) < bound → rounded? (minus ++ whole ++ fraction) = some d →
    d.value = significandValue (minus ++ whole ++ fraction)
  /-- With an exponent the number before it is read first, rounded if need be, and then moved by
  that many places. -/
  scientific_base : ∀ {minus whole fraction exponent : List Char} {d : ScaledDecimal},
    minus = [] ∨ minus = ['-'] → WholePart whole → FractionPart fraction →
    ExponentPart exponent → exponent ≠ [] →
    reader.scientific? (minus ++ whole ++ fraction ++ exponent) = some d →
    ∃ base, rounded? (minus ++ whole ++ fraction) = some base ∧
      d.value = base.value * 10 ^ exponentValue (exponent.drop 1)

section Signs

variable {minus whole fraction : List Char}

/-- The number before an exponent, with its sign as the sign of a decimal. -/
theorem significandValue_eq_value_ofParts (hminus : minus = [] ∨ minus = ['-'])
    (hwhole : WholePart whole) (hfraction : FractionPart fraction) :
    significandValue (minus ++ whole ++ fraction) =
      (ofParts (minus ≠ []) (ofDigits (whole ++ fraction.drop 1))
        (fraction.drop 1).length).value := by
  rw [value_ofParts, significandValue_append hminus hwhole hfraction]
  rcases hminus with rfl | rfl <;> rfl

theorem representable_significandValue_iff (hminus : minus = [] ∨ minus = ['-'])
    (hwhole : WholePart whole) (hfraction : FractionPart fraction) :
    Representable (significandValue (minus ++ whole ++ fraction)) ↔
      Fits (ofDigits (whole ++ fraction.drop 1)) (fraction.drop 1).length := by
  rw [significandValue_eq_value_ofParts hminus hwhole hfraction, value_ofParts,
    representable_iff_fits]

end Signs

/-- Without an exponent mark all of the text stands before it. -/
theorem any_isExponentMark_eq_false_iff {s : List Char} :
    s.any isExponentMark = false ↔ significand s = s := by
  simp [significand, List.takeWhile_eq_self_iff]

namespace Reader.Lawful

variable {reader : Reader} {rounded? : List Char → Option ScaledDecimal}
  {minus whole fraction s : List Char} {d d' : ScaledDecimal}

theorem value_of_plain? (h : reader.Lawful rounded?) (hminus : minus = [] ∨ minus = ['-'])
    (hwhole : WholePart whole) (hfraction : FractionPart fraction)
    (hd : reader.plain? (minus ++ whole ++ fraction) = some d) :
    d.value = significandValue (minus ++ whole ++ fraction) ∧
      Representable (significandValue (minus ++ whole ++ fraction)) := by
  obtain ⟨hlength, hbound, rfl⟩ := h.plain_parts hminus hwhole hfraction hd
  have hvalue := significandValue_eq_value_ofParts hminus hwhole hfraction
  exact ⟨hvalue.symm, _, hbound, hlength, hvalue.symm⟩

theorem value_of_rounded? (h : reader.Lawful rounded?) (hminus : minus = [] ∨ minus = ['-'])
    (hwhole : WholePart whole) (hfraction : FractionPart fraction)
    (hd : rounded? (minus ++ whole ++ fraction) = some d) :
    d.value = significandValue (minus ++ whole ++ fraction) ↔
      Representable (significandValue (minus ++ whole ++ fraction)) := by
  constructor
  · intro hvalue
    obtain ⟨hbound, hscale⟩ := h.rounded_bounds hminus hwhole hfraction hd
    exact ⟨d, hbound, hscale, hvalue⟩
  · intro hrep
    have hfits := (representable_significandValue_iff hminus hwhole hfraction).mp hrep
    obtain ⟨kept, excess, hsplit, hexcess, hlength, hbound⟩ :=
      (fits_iff_exists_kept hfraction.digits).mp hfits
    exact h.rounded_zeros hminus hwhole hfraction hsplit hexcess hlength hbound hd

/-- Without an exponent the value is exact. -/
theorem value_of_read?_plain (h : reader.Lawful rounded?) (hs : NumberText s)
    (hplain : significand s = s) (hd : reader.read? s = some d) :
    d.value = numberValue s ∧ Representable (significandValue s) := by
  rw [read?, any_isExponentMark_eq_false_iff.mpr hplain, if_neg (by simp)] at hd
  rw [numberValue_of_significand_eq hplain]
  obtain ⟨minus, whole, fraction, hminus, hwhole, hfraction, rfl⟩ := hs.exists_plain hplain
  exact h.value_of_plain? hminus hwhole hfraction hd

/-- The value is exact if and only if the number before the exponent fits. -/
theorem value_of_read? (h : reader.Lawful rounded?) (hs : NumberText s)
    (hd : reader.read? s = some d) :
    d.value = numberValue s ↔ Representable (significandValue (significand s)) := by
  by_cases hplain : significand s = s
  · obtain ⟨hvalue, hrep⟩ := h.value_of_read?_plain hs hplain hd
    rw [hplain]
    exact iff_of_true hvalue hrep
  · -- the exponent moves both values by as many places
    rw [read?, if_pos (Bool.of_not_eq_false (mt any_isExponentMark_eq_false_iff.mp hplain))] at hd
    obtain ⟨hminus, hwhole, hfraction, hexponent⟩ := hs
    rename_i minus whole fraction exponent
    have hsignificand := (significand_append hminus hwhole hfraction hexponent).1
    have hne : exponent ≠ [] := by
      intro hnone
      exact hplain (by rw [hsignificand, hnone, List.append_nil])
    obtain ⟨base, hbase, hvalue⟩ := h.scientific_base hminus hwhole hfraction hexponent hne hd
    have hpower : (10 : ℚ) ^ exponentValue (exponent.drop 1) ≠ 0 := zpow_ne_zero _ (by decide)
    rw [numberValue_append hminus hwhole hfraction hexponent, hsignificand, hvalue,
      mul_left_inj' hpower]
    exact h.value_of_rounded? hminus hwhole hfraction hbase

end Reader.Lawful

/-! ## The reader of numbers of 96 bits -/

section Standard

variable {minus whole fraction exponent : List Char} {d d' : ScaledDecimal} {e : Nat}

theorem value_of_lower? (h : d.lower? e = some d') : d'.value = d.value * 10 ^ (-e : ℤ) := by
  unfold lower? at h
  split at h
  · obtain rfl : { d with scale := d.scale + e } = d' := by simpa using h
    simp only [value]
    rw [pow_add, zpow_neg, zpow_natCast]
    field_simp
  · simp at h

theorem value_of_raise? (h : d.raise? e = some d') : d'.value = d.value * 10 ^ (e : ℤ) := by
  unfold raise? at h
  split at h
  case isTrue hle =>
    obtain rfl : { d with scale := d.scale - e } = d' := by simpa using h
    obtain ⟨k, hk⟩ : ∃ k, d.scale = k + e := ⟨d.scale - e, by omega⟩
    simp only [value, hk, Nat.add_sub_cancel]
    rw [pow_add, zpow_natCast]
    field_simp
  case isFalse hgt =>
    split at h
    · simp at h
    · dsimp only at h
      split at h
      · obtain rfl : ⟨d.negative, d.coefficient * powerOfTen (e - d.scale), 0⟩ = d' := by
          simpa using h
        obtain ⟨k, rfl⟩ : ∃ k, e = d.scale + k := ⟨e - d.scale, by omega⟩
        simp only [value, powerOfTen, Nat.add_sub_cancel_left]
        rw [zpow_natCast, pow_add]
        push_cast
        field_simp
        simp
      · simp at h

/-- With an exponent the number before it is read first, rounded if need be. -/
theorem value_of_readScientific? (hminus : minus = [] ∨ minus = ['-']) (hwhole : WholePart whole)
    (hfraction : FractionPart fraction) (hexponent : ExponentPart exponent) (hne : exponent ≠ [])
    (h : readScientific? (minus ++ whole ++ fraction ++ exponent) = some d) :
    ∃ base, readPlain? .round (minus ++ whole ++ fraction) = some base ∧
      d.value = base.value * 10 ^ exponentValue (exponent.drop 1) := by
  obtain ⟨hsignificand, hrest⟩ := significand_append hminus hwhole hfraction hexponent
  obtain ⟨mark, sign, ds, -, hsign, hds, rfl⟩ := hexponent.resolve_left hne
  rw [significand] at hsignificand
  rw [readScientific?, hsignificand, hrest] at h
  cases hbase : readPlain? .round (minus ++ whole ++ fraction) with
  | none => rw [hbase] at h; simp at h
  | some base =>
    refine ⟨base, rfl, ?_⟩
    rw [hbase] at h
    rcases hsign with rfl | rfl | rfl
    · obtain ⟨c, cs, rfl⟩ := List.exists_cons_of_ne_nil hds.1
      have hc := hds.2 c (by simp)
      have hread : (IntType.u32.read? (c :: cs)).bind (fun e => base.raise? e.toNat) = some d := by
        simpa [ne_of_isDigit hc] using h
      obtain ⟨n, hn, hraise⟩ := Option.bind_eq_some_iff.mp hread
      rw [IntType.eq_ofDigits_of_read? (.inl rfl) hds hn] at hraise
      simpa [exponentValue, ne_of_isDigit hc] using value_of_raise? hraise
    · obtain ⟨n, hn, hraise⟩ := Option.bind_eq_some_iff.mp h
      rw [IntType.eq_ofDigits_of_read? (.inr rfl) hds hn] at hraise
      exact value_of_raise? hraise
    · obtain ⟨n, hn, hlower⟩ := Option.bind_eq_some_iff.mp h
      rw [IntType.eq_ofDigits_of_read? (.inl rfl) hds hn] at hlower
      exact value_of_lower? hlower

/-- The digits in excess are zeros where the number fits, and then rounding keeps its value. -/
theorem Reader.lawful_standard : Reader.standard.Lawful (readPlain? .round) where
  plain_parts hminus hwhole hfraction hd := by
    obtain ⟨m, k, rfl, hrounds, hexact⟩ := readPlain?_append hminus hwhole hfraction hd
    obtain ⟨rfl, rfl⟩ := hexact rfl
    exact ⟨hrounds.le_maxScale, hrounds.lt_bound, rfl⟩
  rounded_bounds hminus hwhole hfraction hd := by
    obtain ⟨m, k, rfl, hrounds, -⟩ := readPlain?_append hminus hwhole hfraction hd
    exact ⟨hrounds.lt_bound, hrounds.le_maxScale⟩
  rounded_zeros hminus hwhole hfraction hsplit hexcess hlength hbound hd := by
    obtain ⟨m, k, rfl, hrounds, -⟩ := readPlain?_append hminus hwhole hfraction hd
    have hfits := (fits_iff_exists_kept hfraction.digits).mpr
      ⟨_, _, hsplit, hexcess, hlength, hbound⟩
    rw [significandValue_eq_value_ofParts hminus hwhole hfraction, value_ofParts, value_ofParts,
      div_eq_div_iff_mul_eq_mul.mpr (hrounds.eq_of_fits hfits)]
  scientific_base := value_of_readScientific?

end Standard

end Number.ScaledDecimal

/-! ## Tokens -/

namespace Cursor

open Grammar
open Number (ScaledDecimal)
open Number.ScaledDecimal (Representable)

/-- Where a number is read as a scaled decimal, this is the number that the text denotes if and only
if the part before the exponent fits. Without an exponent it always does, and an exponent of zero
behind such a text does not lead to another number. -/
theorem value_of_decimal? {reader : ScaledDecimal.Reader}
    {rounded? : List Char → Option ScaledDecimal} {c : Cursor} {text : String} {d : ScaledDecimal}
    (hreader : reader.Lawful rounded?) (hc : c.number? = some text)
    (htext : NumberText text.toList) (hd : c.decimal? reader = some d) :
    (d.value = numberValue text.toList ↔
        Representable (significandValue (significand text.toList))) ∧
      (significand text.toList = text.toList → d.value = numberValue text.toList ∧
        ∀ (c' : Cursor) (d' : ScaledDecimal), c'.number? = some (text ++ "e0") →
          c'.decimal? reader = some d' → d'.value = d.value) := by
  have hread : reader.read? text.toList = some d := by simpa [decimal?, hc] using hd
  refine ⟨hreader.value_of_read? htext hread, fun hplain => ?_⟩
  obtain ⟨hvalue, hfits⟩ := hreader.value_of_read?_plain htext hplain hread
  refine ⟨hvalue, fun c' d' hc' hd' => ?_⟩
  have hread' : reader.read? (text.toList ++ ['e', '0']) = some d' := by
    simpa [decimal?, hc'] using hd'
  obtain ⟨htext', hsignificand, hsame⟩ := htext.append_zero hplain
  rw [hvalue, ← hsame]
  exact (hreader.value_of_read? htext' hread').mpr (by rwa [hsignificand])

/-- A price in cents. -/
def price : Cursor := ⟨[⟨.number "-1250e-2", {}⟩], []⟩

theorem value_of_decimal?_price :
    ScaledDecimal.Reader.standard.Lawful (ScaledDecimal.readPlain? .round) ∧
      price.number? = some "-1250e-2" ∧ NumberText "-1250e-2".toList ∧
      price.decimal? .standard = some ⟨true, 1250, 2⟩ ∧
      Representable (significandValue (significand "-1250e-2".toList)) ∧
      ScaledDecimal.value ⟨true, 1250, 2⟩ = numberValue "-1250e-2".toList := by
  have htake : takeNumber? "-1250e-2".toList = some ("-1250e-2".toList, []) := by rfl
  have htext : NumberText "-1250e-2".toList := (numberText_of_takeNumber? htake).1
  have hread : price.decimal? .standard = some ⟨true, 1250, 2⟩ := by decide +kernel
  have hfits : Representable (significandValue (significand "-1250e-2".toList)) :=
    ⟨⟨true, 1250, 0⟩, by decide, by decide, by decide +kernel⟩
  have hlawful := ScaledDecimal.Reader.lawful_standard
  exact ⟨hlawful, rfl, htext, hread, hfits,
    (value_of_decimal? hlawful rfl htext hread).1.mpr hfits⟩

/-- A number of 29 digits behind the point. -/
def tiny : Cursor := ⟨[⟨.number "0.00000000000000000000000000005e0", {}⟩], []⟩

/-- The part before the exponent is rounded to 28 digits behind the point. -/
theorem not_forall_value_of_decimal? :
    ¬ ∀ {reader : ScaledDecimal.Reader} {rounded? : List Char → Option ScaledDecimal}
        {c : Cursor} {text : String} {d : ScaledDecimal}, reader.Lawful rounded? →
      c.number? = some text → NumberText text.toList → c.decimal? reader = some d →
        d.value = numberValue text.toList := by
  intro h
  have htake : takeNumber? "0.00000000000000000000000000005e0".toList =
      some ("0.00000000000000000000000000005e0".toList, []) := by decide +kernel
  have hread : tiny.decimal? .standard = some ⟨false, 1, 28⟩ := by decide +kernel
  have hvalue : ScaledDecimal.value ⟨false, 1, 28⟩ ≠
      numberValue "0.00000000000000000000000000005e0".toList := by decide +kernel
  exact hvalue
    (h ScaledDecimal.Reader.lawful_standard rfl (numberText_of_takeNumber? htake).1 hread)

end Cursor

end JsonReader
