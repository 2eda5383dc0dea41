import JsonReader.Proofs.Grammar.NumberValue
import Mathlib.Data.List.Induction

/-!
# Scaled decimals in plain notation

Reading digits either refuses what does not fit or rounds it. Rounding looks at one digit only, but
the number that it gives is right wherever the number of the text fits: then all digits that are cut
off are zero.

## Main definitions

* `ScaledDecimal.Fits` holds of the numbers with a coefficient in bounds and at most 28 digits
  behind the point; `ScaledDecimal.Rounds` says what is known of a result.

## Main statements

* `ScaledDecimal.Fits.of_no_room`, `ScaledDecimal.eq_zero_of_fits`: a number that fits loses no
  digit but zeros.
* `ScaledDecimal.readDigits?_whole`, `ScaledDecimal.rounds_of_readDigits?`: the digits before and
  behind the point.
* `ScaledDecimal.readPlain?_append`: what is read from a number without an exponent.
-/

namespace JsonReader.Number.ScaledDecimal

open Grammar

/-! ## One digit -/

section Digits

variable {excess : Excess} {seen : Bool} {coefficient scale : Nat} {c : Char} {rest : List Char}

theorem readDigits?_cons_whole (hc : c.isDigit = true) :
    readDigits? excess false seen coefficient 0 (c :: rest) =
      if bound ≤ 10 * coefficient + ofDigits [c] then none
      else readDigits? excess false true (10 * coefficient + ofDigits [c]) 0 rest := by
  rw [readDigits?.eq_def]
  simp only [digitValue?_eq_ofDigits hc, Bool.false_eq_true, if_false, Bool.false_and]
  split
  · rfl
  · cases rest <;> rfl

theorem readDigits?_cons_fraction (hc : c.isDigit = true) :
    readDigits? excess true seen coefficient scale (c :: rest) =
      if bound ≤ 10 * coefficient + ofDigits [c] then
        if excess = .round then roundBy? coefficient scale c else none
      else
        match rest with
        | [] => some (10 * coefficient + ofDigits [c], scale + 1)
        | next :: after =>
          if maxScale ≤ scale + 1 then
            if excess = .round then
              roundBy? (10 * coefficient + ofDigits [c]) (scale + 1) (nextDigit next after)
            else none
          else readDigits? excess true true (10 * coefficient + ofDigits [c]) (scale + 1) rest := by
  rw [readDigits?.eq_def]
  simp only [digitValue?_eq_ofDigits hc, if_true, Bool.true_and, decide_eq_true_eq]
  split
  · cases excess <;> rfl
  · cases rest with
    | nil => rfl
    | cons next after => cases excess <;> rfl

theorem readDigits?_point :
    readDigits? excess false true coefficient scale ('.' :: rest) =
      readDigits? excess true true coefficient scale rest := by
  rw [readDigits?.eq_def]
  rfl

/-- The whole part is read if it is in bounds. By induction on its digits, of which any number in
front is in bounds as well. -/
theorem readDigits?_whole {whole : List Char} (hwhole : ∀ d ∈ whole, d.isDigit = true)
    (hseen : seen = true ∨ whole ≠ []) (hcoefficient : coefficient < bound) :
    readDigits? excess false seen coefficient 0 (whole ++ rest) =
      if coefficient * 10 ^ whole.length + ofDigits whole < bound then
        readDigits? excess false true (coefficient * 10 ^ whole.length + ofDigits whole) 0 rest
      else none := by
  induction whole generalizing seen coefficient with
  | nil =>
    obtain rfl : seen = true := by simpa using hseen
    simp [hcoefficient]
  | cons d ds ih =>
    rw [List.cons_append, readDigits?_cons_whole (hwhole d (by simp)), List.length_cons,
      mul_add_ofDigits_cons]
    by_cases hbound : bound ≤ 10 * coefficient + ofDigits [d]
    · have hle : 10 * coefficient + ofDigits [d] ≤
          (10 * coefficient + ofDigits [d]) * 10 ^ ds.length :=
        Nat.le_mul_of_pos_right _ (Nat.pow_pos (by decide))
      rw [if_pos hbound, if_neg (by omega)]
    · rw [if_neg hbound]
      exact ih (fun e he => hwhole e (by simp [he])) (.inl rfl) (by omega)

end Digits

/-! ## Rounding -/

section Rounding

/-- The number `n / 10 ^ l` has a coefficient in bounds and not too many digits behind the point. -/
def Fits (n l : Nat) : Prop := ∃ m k, m < bound ∧ k ≤ maxScale ∧ m * 10 ^ l = n * 10 ^ k

/-- The decimal `m / 10 ^ k` is in bounds, and it is the number `n / 10 ^ l` if that fits. -/
structure Rounds (n l m k : Nat) : Prop where
  lt_bound : m < bound
  le_maxScale : k ≤ maxScale
  eq_of_fits : Fits n l → m * 10 ^ l = n * 10 ^ k

variable {n l v c k m j : Nat} {d : Char} {ds : List Char}

/-- A number that fits, but not with all of its digits, ends with a zero, and it fits without it. -/
theorem Fits.of_no_room (h : Fits (n * 10 + v) (l + 1)) (hv : v < 10)
    (hroom : ¬ (l + 1 ≤ maxScale ∧ n * 10 + v < bound)) : v = 0 ∧ Fits n l := by
  obtain ⟨m, k, hm, hk, heq⟩ := h
  have hpos : ∀ i : Nat, 0 < 10 ^ i := fun i => Nat.pow_pos (by decide)
  have hkl : k ≤ l := by
    by_contra hlt
    obtain ⟨r, rfl⟩ : ∃ r, k = l + 1 + r := ⟨k - (l + 1), by omega⟩
    have hm' : m = (n * 10 + v) * 10 ^ r := by
      refine Nat.eq_of_mul_eq_mul_right (hpos (l + 1)) ?_
      rw [heq]
      ring
    have hle : n * 10 + v ≤ (n * 10 + v) * 10 ^ r := Nat.le_mul_of_pos_right _ (hpos r)
    omega
  obtain ⟨r, rfl⟩ : ∃ r, l = k + r := ⟨l - k, by omega⟩
  have hcancel : m * 10 ^ r * 10 = n * 10 + v := by
    refine Nat.eq_of_mul_eq_mul_right (hpos k) ?_
    rw [← heq]
    ring
  refine ⟨by omega, m, k, hm, hk, ?_⟩
  rw [show n = m * 10 ^ r by omega]
  ring

/-- Where a digit more would be one too many, a number fits only if all further digits are zero. By
induction on these, from the last one on. -/
theorem eq_zero_of_fits (hdigits : ∀ e ∈ d :: ds, e.isDigit = true)
    (hcut : k = maxScale ∨ bound ≤ 10 * c + ofDigits [d])
    (h : Fits (c * 10 ^ (ds.length + 1) + ofDigits (d :: ds)) (k + (ds.length + 1))) :
    ofDigits (d :: ds) = 0 := by
  induction ds using List.reverseRecOn with
  | nil =>
    rw [List.length_nil, Nat.zero_add, pow_one] at h
    exact (h.of_no_room (ofDigits_singleton_lt (hdigits d (by simp))) (by omega)).1
  | append_singleton ds e ih =>
    have hlast : ofDigits (d :: (ds ++ [e])) = ofDigits (d :: ds) * 10 + ofDigits [e] :=
      ofDigits_append (d :: ds) [e]
    have htotal : c * 10 ^ ((ds ++ [e]).length + 1) + ofDigits (d :: (ds ++ [e])) =
        (c * 10 ^ (ds.length + 1) + ofDigits (d :: ds)) * 10 + ofDigits [e] := by
      rw [hlast, List.length_append, List.length_singleton]
      ring
    have hscale : k + ((ds ++ [e]).length + 1) = k + (ds.length + 1) + 1 := by
      rw [List.length_append, List.length_singleton]
      omega
    have hle : 10 * c + ofDigits [d] ≤ c * 10 ^ (ds.length + 1) + ofDigits (d :: ds) := by
      rw [mul_add_ofDigits_cons]
      exact Nat.le_add_right_of_le (Nat.le_mul_of_pos_right _ (Nat.pow_pos (by decide)))
    rw [htotal, hscale] at h
    obtain ⟨hzero, hfits⟩ := h.of_no_room (ofDigits_singleton_lt (hdigits e (by simp))) (by omega)
    have hfront : ∀ x ∈ d :: ds, x.isDigit = true := fun x hx =>
      hdigits x (List.mem_append_left [e] hx)
    rw [hlast, hzero, ih hfront hfits]

theorem increment?_bounds (hc : c < bound) (hk : k ≤ maxScale)
    (h : increment? c k = some (m, j)) : m < bound ∧ j ≤ maxScale := by
  unfold increment? at h
  split at h
  · obtain ⟨rfl, rfl⟩ : c + 1 = m ∧ k = j := by simpa using h
    exact ⟨‹_›, hk⟩
  · split at h
    · simp at h
    · obtain ⟨rfl, rfl⟩ : (c + 5) / 10 = m ∧ k - 1 = j := by simpa using h
      have hbound : 5 ≤ bound := by decide
      exact ⟨by omega, by omega⟩

/-- Digits that are cut off are rounded, and a number that fits loses nothing. -/
theorem rounds_of_roundBy? (hdigits : ∀ e ∈ d :: ds, e.isDigit = true) (hc : c < bound)
    (hk : k ≤ maxScale) (hcut : k = maxScale ∨ bound ≤ 10 * c + ofDigits [d])
    (h : roundBy? c k d = some (m, j)) :
    Rounds (c * 10 ^ (ds.length + 1) + ofDigits (d :: ds)) (k + (ds.length + 1)) m j := by
  simp only [roundBy?, digitValue?_eq_ofDigits (hdigits d (by simp))] at h
  split at h
  case isTrue hfive =>
    obtain ⟨hm, hj⟩ := increment?_bounds hc hk h
    refine ⟨hm, hj, fun hfits => ?_⟩
    -- the first digit that is cut off is not zero, so the number does not fit
    have hzero := eq_zero_of_fits hdigits hcut hfits
    have hpos : ofDigits [d] ≤ ofDigits [d] * 10 ^ ds.length :=
      Nat.le_mul_of_pos_right _ (Nat.pow_pos (by decide))
    have hsplit := ofDigits_cons d ds
    omega
  case isFalse =>
    obtain ⟨rfl, rfl⟩ : c = m ∧ k = j := by simpa using h
    refine ⟨hc, hk, fun hfits => ?_⟩
    rw [eq_zero_of_fits hdigits hcut hfits]
    ring

/-- By induction on the digits behind the point. There is room for one more before each of them,
and the digits that are left when there is none are cut off. -/
theorem rounds_of_readDigits? {excess : Excess} {fraction : List Char}
    (hfraction : ∀ e ∈ fraction, e.isDigit = true) (hc : c < bound) (hk : k < maxScale)
    (h : readDigits? excess true true c k fraction = some (m, j)) :
    Rounds (c * 10 ^ fraction.length + ofDigits fraction) (k + fraction.length) m j ∧
      (excess = .refuse → m = c * 10 ^ fraction.length + ofDigits fraction ∧
        j = k + fraction.length) := by
  induction fraction generalizing c k with
  | nil =>
    obtain ⟨rfl, rfl⟩ : c = m ∧ k = j := by simpa [readDigits?] using h
    exact ⟨⟨hc, hk.le, fun _ => by simp⟩, fun _ => by simp⟩
  | cons d ds ih =>
    rw [readDigits?_cons_fraction (hfraction d (by simp))] at h
    split at h
    case isTrue hbound =>
      split at h
      case isTrue hround =>
        exact ⟨rounds_of_roundBy? hfraction hc hk.le (.inr hbound) h,
          fun hrefuse => by simp [hround] at hrefuse⟩
      case isFalse => simp at h
    case isFalse hbound =>
      have hc' : 10 * c + ofDigits [d] < bound := by omega
      have hlength : k + (ds.length + 1) = k + 1 + ds.length := by omega
      rw [List.length_cons, mul_add_ofDigits_cons, hlength]
      split at h
      case h_1 =>
        obtain ⟨rfl, rfl⟩ : 10 * c + ofDigits [d] = m ∧ k + 1 = j := by simpa using h
        exact ⟨⟨hc', hk, fun _ => by simp⟩, fun _ => by simp⟩
      case h_2 e es =>
        have hdigits : ∀ x ∈ e :: es, x.isDigit = true := fun x hx => hfraction x (by simp [hx])
        split at h
        case isTrue hfull =>
          split at h
          case isTrue hround =>
            have hnext : nextDigit e es = e := by
              rw [nextDigit, if_neg (ne_of_isDigit (hdigits e (by simp)) rfl)]
            rw [hnext] at h
            exact ⟨rounds_of_roundBy? hdigits hc' hk (.inl (by omega)) h,
              fun hrefuse => by simp [hround] at hrefuse⟩
          case isFalse => simp at h
        case isFalse hroom => exact ih hdigits hc' (by omega) h

end Rounding

/-! ## Plain notation -/

section Plain

variable {excess : Excess} {minus whole fraction : List Char} {d : ScaledDecimal}

theorem readPlain?_minus_append (hminus : minus = [] ∨ minus = ['-']) (hwhole : WholePart whole) :
    readPlain? excess (minus ++ whole ++ fraction) =
      (readDigits? excess false false 0 0 (whole ++ fraction)).map
        fun r => ofParts (minus ≠ []) r.1 r.2 := by
  rcases hminus with rfl | rfl
  · obtain ⟨d, ds, rfl, hd⟩ := exists_cons_of_wholePart hwhole
    simp [readPlain?, ne_of_isDigit hd]
  · rfl

/-- What is read from a number without an exponent: the digits without the point, or what they are
rounded to. -/
theorem readPlain?_append (hminus : minus = [] ∨ minus = ['-']) (hwhole : WholePart whole)
    (hfraction : FractionPart fraction)
    (h : readPlain? excess (minus ++ whole ++ fraction) = some d) :
    ∃ m j, d = ofParts (minus ≠ []) m j ∧
      Rounds (ofDigits (whole ++ fraction.drop 1)) (fraction.drop 1).length m j ∧
      (excess = .refuse → m = ofDigits (whole ++ fraction.drop 1) ∧
        j = (fraction.drop 1).length) := by
  rw [readPlain?_minus_append hminus hwhole, Option.map_eq_some_iff] at h
  obtain ⟨⟨m, j⟩, hread, rfl⟩ := h
  refine ⟨m, j, rfl, ?_⟩
  rw [readDigits?_whole hwhole.digits.2 (.inr hwhole.digits.1) (by decide), Nat.zero_mul,
    Nat.zero_add] at hread
  split at hread
  case isTrue hbound =>
    rcases hfraction with rfl | ⟨ds, hds, rfl⟩
    · obtain ⟨rfl, rfl⟩ : ofDigits whole = m ∧ 0 = j := by simpa [readDigits?] using hread
      exact ⟨⟨hbound, by decide, fun _ => by simp⟩, fun _ => by simp⟩
    · rw [readDigits?_point] at hread
      simpa [ofDigits_append] using rounds_of_readDigits? hds.2 hbound (by decide) hread
  case isFalse => simp at hread

end Plain

end JsonReader.Number.ScaledDecimal
