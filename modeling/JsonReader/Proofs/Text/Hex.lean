import JsonReader.Proofs.Lexeme.StringLiteral
import Mathlib.Data.List.Induction
import Mathlib.Tactic.Ring

/-!
# Rows of hexadecimal digits

A row of digits of either case denotes a number, and the number has one row of each length in lower
case: the one that denotes it, up to the case of its digits.

## Main statements

* `toLower_eq_or_exists`: what putting a character in lower case changes.
* `hexValue?_toLower`, `hexValue?_eq_some_iff_toLower`: one digit.
* `hexValues?_eq_some_iff`: the row that denotes a number.
* `byteCount_of_hexValues?`: each digit is one byte.
-/

namespace JsonReader.Text

variable {c : Char} {ds : List Char} {d n : Nat}

/-- Putting a character in lower case changes nothing but the upper-case letters. -/
theorem toLower_eq_or_exists (c : Char) : c.toLower = c ∨ ∃ k < 26, c = Char.ofNat (65 + k) := by
  by_cases hc : 'A'.val ≤ c.val ∧ c.val ≤ 'Z'.val
  · obtain ⟨hlow, hhigh⟩ : 65 ≤ c.toNat ∧ c.toNat ≤ 90 := by
      simpa [UInt32.le_iff_toNat_le] using hc
    refine .inr ⟨c.toNat - 65, by omega, ?_⟩
    rw [show 65 + (c.toNat - 65) = c.toNat by omega, Char.ofNat_toNat]
  · exact .inl (dif_neg hc)

/-- The case of a digit does not matter, and no other letter becomes a digit in lower case. -/
theorem hexValue?_toLower (c : Char) : hexValue? c.toLower = hexValue? c := by
  have upper : ∀ k < 26,
      hexValue? (Char.ofNat (65 + k)).toLower = hexValue? (Char.ofNat (65 + k)) := by decide
  rcases toLower_eq_or_exists c with hc | ⟨k, hk, rfl⟩
  · rw [hc]
  · exact upper k hk

/-- A digit is what is written for its value, in either case. -/
theorem hexValue?_eq_some_iff_toLower :
    hexValue? c = some d ↔ d < 16 ∧ c.toLower = hexDigit d := by
  constructor
  · intro h
    have decimal : ∀ m < 10, (Char.ofNat ('0'.toNat + m)).toLower = hexDigit m := by decide
    have lower : ∀ m < 6, (Char.ofNat ('a'.toNat + m)).toLower = hexDigit (10 + m) := by decide
    have upper : ∀ m < 6, (Char.ofNat ('A'.toNat + m)).toLower = hexDigit (10 + m) := by decide
    cases hexDigit_of_hexValue? h with
    | decimal hm => exact ⟨by omega, decimal _ hm⟩
    | lower hm => exact ⟨by omega, lower _ hm⟩
    | upper hm => exact ⟨by omega, upper _ hm⟩
  · rintro ⟨hd, hc⟩
    rw [← hexValue?_toLower, hc, hexValue?_hexDigit hd]

theorem hexValues?_append_singleton :
    hexValues? (ds ++ [c]) = some n ↔
      ∃ m d, hexValues? ds = some m ∧ hexValue? c = some d ∧ 16 * m + d = n := by
  simp [hexValues?, List.foldlM_append, Option.bind_eq_some_iff]

/-- A row of digits denotes the number that has this row in lower case. By induction from the end:
the last digit is the number modulo sixteen, and the digits before it denote the quotient. -/
theorem hexValues?_eq_some_iff :
    hexValues? ds = some n ↔
      n < 16 ^ ds.length ∧ ds.map Char.toLower = hexPadded ds.length n := by
  induction ds using List.reverseRecOn generalizing n with
  | nil => simp [hexValues?, hexPadded, eq_comm]
  | append_singleton ds c ih =>
    have hrow : (ds ++ [c]).map Char.toLower = hexPadded (ds ++ [c]).length n ↔
        ds.map Char.toLower = hexPadded ds.length (n / 16) ∧ c.toLower = hexDigit (n % 16) := by
      rw [List.map_append, List.length_append, List.length_singleton, hexPadded, List.map_singleton]
      exact List.append_singleton_inj
    have hbound : n < 16 ^ (ds ++ [c]).length ↔ n / 16 < 16 ^ ds.length := by
      rw [List.length_append, List.length_singleton, Nat.pow_succ]
      exact (Nat.div_lt_iff_lt_mul (by decide)).symm
    rw [hexValues?_append_singleton, hrow, hbound]
    constructor
    · rintro ⟨m, d, hm, hd, rfl⟩
      obtain ⟨hlt, hmap⟩ := ih.mp hm
      obtain ⟨hd, hc⟩ := hexValue?_eq_some_iff_toLower.mp hd
      rw [show (16 * m + d) / 16 = m by omega, show (16 * m + d) % 16 = d by omega]
      exact ⟨hlt, hmap, hc⟩
    · rintro ⟨hlt, hmap, hc⟩
      exact ⟨n / 16, n % 16, ih.mpr ⟨hlt, hmap⟩,
        hexValue?_eq_some_iff_toLower.mpr ⟨Nat.mod_lt _ (by decide), hc⟩, Nat.div_add_mod n 16⟩

/-- In a row that denotes a number there is nothing but digits. -/
theorem exists_hexValue?_of_mem (h : hexValues? ds = some n) (hc : c ∈ ds) :
    ∃ d, hexValue? c = some d := by
  induction ds using List.reverseRecOn generalizing n with
  | nil => cases hc
  | append_singleton ds c' ih =>
    obtain ⟨m, d, hm, hd, -⟩ := hexValues?_append_singleton.mp h
    rcases List.mem_append.mp hc with hc | hc
    · exact ih hm hc
    · exact ⟨d, List.mem_singleton.mp hc ▸ hd⟩

theorem utf8Size_of_hexValue? (h : hexValue? c = some d) : c.utf8Size = 1 := by
  have decimal : ∀ m < 10, (Char.ofNat ('0'.toNat + m)).utf8Size = 1 := by decide
  have lower : ∀ m < 6, (Char.ofNat ('a'.toNat + m)).utf8Size = 1 := by decide
  have upper : ∀ m < 6, (Char.ofNat ('A'.toNat + m)).utf8Size = 1 := by decide
  cases hexDigit_of_hexValue? h with
  | decimal hm => exact decimal _ hm
  | lower hm => exact lower _ hm
  | upper hm => exact upper _ hm

theorem byteCount_of_hexValues? (h : hexValues? ds = some n) : byteCount ds = ds.length := by
  induction ds using List.reverseRecOn generalizing n with
  | nil => rfl
  | append_singleton ds c ih =>
    obtain ⟨m, d, hm, hd, -⟩ := hexValues?_append_singleton.mp h
    simp [ih hm, utf8Size_of_hexValue? hd]

end JsonReader.Text
