import JsonReader.Number.Digits
import Mathlib.Tactic.Ring

/-!
# The number that a row of digits denotes

## Main statements

* `ofDigits_append`: digits that are put behind others move these by as many places.
* `mul_add_ofDigits_cons`: digits that are read from the front.
-/

namespace JsonReader.Number

variable {c : Char}

/-- A row of digits from a number on. -/
theorem foldl_digits (n : Nat) (ds : List Char) :
    ds.foldl (fun n c => 10 * n + (c.toNat - '0'.toNat)) n = n * 10 ^ ds.length + ofDigits ds := by
  induction ds generalizing n with
  | nil => simp [ofDigits]
  | cons d ds ih =>
    rw [ofDigits, List.foldl_cons, List.foldl_cons, ih, ih (10 * 0 + _), List.length_cons]
    ring

@[simp] theorem ofDigits_nil : ofDigits [] = 0 := rfl

theorem ofDigits_append (ds es : List Char) :
    ofDigits (ds ++ es) = ofDigits ds * 10 ^ es.length + ofDigits es := by
  rw [ofDigits, List.foldl_append, foldl_digits]
  rfl

theorem ofDigits_cons (c : Char) (ds : List Char) :
    ofDigits (c :: ds) = ofDigits [c] * 10 ^ ds.length + ofDigits ds :=
  ofDigits_append [c] ds

/-- One digit more behind a number. -/
theorem mul_add_ofDigits_cons (n : Nat) (c : Char) (ds : List Char) :
    n * 10 ^ (ds.length + 1) + ofDigits (c :: ds) =
      (10 * n + ofDigits [c]) * 10 ^ ds.length + ofDigits ds := by
  rw [ofDigits_cons]
  ring

/-- The value of one digit. -/
theorem toNat_of_isDigit (hc : c.isDigit = true) :
    c.toNat = '0'.toNat + ofDigits [c] ∧ ofDigits [c] < 10 := by
  obtain ⟨hlo, hhi⟩ : 48 ≤ c.toNat ∧ c.toNat ≤ 57 := by
    simpa [Char.isDigit, UInt32.le_iff_toNat_le] using hc
  have hzero : '0'.toNat = 48 := rfl
  have hone : ofDigits [c] = 10 * 0 + (c.toNat - 48) := rfl
  omega

theorem ofDigits_singleton_lt (hc : c.isDigit = true) : ofDigits [c] < 10 := (toNat_of_isDigit hc).2

theorem eq_zero_of_ofDigits_eq_zero (hc : c.isDigit = true) (h : ofDigits [c] = 0) : c = '0' := by
  have hvalue := (toNat_of_isDigit hc).1
  rw [h, Nat.add_zero] at hvalue
  exact Char.toNat_inj.mp hvalue

theorem digitValue?_eq_ofDigits (hc : c.isDigit = true) : digitValue? c = some (ofDigits [c]) := by
  simp [digitValue?, hc, ofDigits]

/-- A digit is none of the other characters. -/
theorem ne_of_isDigit {d : Char} (hc : c.isDigit = true) (hd : d.isDigit = false) : c ≠ d := by
  rintro rfl
  exact Bool.false_ne_true (hd.symm.trans hc)

end JsonReader.Number
