/-!
# Hexadecimal digits

## Main definitions

* `hexValue?` reads one digit of either case, `hexValues?` a row of them.
* `hexDigit` writes one digit in lower case, `hexText` a number without padding and `hexPadded`
  one with a fixed number of digits.
-/

namespace JsonReader.Text

/-- The value of a hexadecimal digit of either case. -/
def hexValue? (c : Char) : Option Nat :=
  if '0' ≤ c ∧ c ≤ '9' then some (c.toNat - '0'.toNat)
  else if 'a' ≤ c ∧ c ≤ 'f' then some (c.toNat - 'a'.toNat + 10)
  else if 'A' ≤ c ∧ c ≤ 'F' then some (c.toNat - 'A'.toNat + 10)
  else none

/-- The number that a row of hexadecimal digits denotes, the most significant digit first. -/
def hexValues? (cs : List Char) : Option Nat :=
  cs.foldlM (fun n c => (hexValue? c).map (16 * n + ·)) 0

/-- The lower-case digit of a number below sixteen. -/
def hexDigit (n : Nat) : Char :=
  if n < 10 then Char.ofNat ('0'.toNat + n) else Char.ofNat ('a'.toNat + (n - 10))

/-- The lowest `count` hexadecimal digits of `n`, the most significant first. -/
def hexPadded : Nat → Nat → List Char
  | 0, _ => []
  | count + 1, n => hexPadded count (n / 16) ++ [hexDigit (n % 16)]

/-- The number of hexadecimal digits of `n` without leading zeros; zero has one. -/
def hexWidth (n : Nat) : Nat := Nat.log2 n / 4 + 1

/-- The hexadecimal text of `n`, lower case and without leading zeros. -/
def hexText (n : Nat) : List Char := hexPadded (hexWidth n) n

@[simp] theorem length_hexPadded (count n : Nat) : (hexPadded count n).length = count := by
  induction count generalizing n with
  | zero => rfl
  | succ count ih => simp [hexPadded, ih]

/-- A written digit reads back. -/
theorem hexValue?_hexDigit {n : Nat} (h : n < 16) : hexValue? (hexDigit n) = some n := by
  have all : ∀ m ∈ List.range 16, hexValue? (hexDigit m) = some m := by decide
  exact all n (List.mem_range.mpr h)

end JsonReader.Text
