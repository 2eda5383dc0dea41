/-!
# Decimal digits

## Main definitions

* `digitValue?` reads one ASCII digit, `ofDigits?` a row of them, `natural?` a row that is not empty.
* `digitCount` counts the digits of a number, `powerOfTen` is the unit of a digit.
-/

namespace JsonReader.Number

/-- The value of an ASCII decimal digit. -/
def digitValue? (c : Char) : Option Nat :=
  if c.isDigit then some (c.toNat - '0'.toNat) else none

/-- The value of a row of digits, the most significant first. -/
def ofDigits (cs : List Char) : Nat :=
  cs.foldl (fun n c => 10 * n + (c.toNat - '0'.toNat)) 0

/-- The number that a row of one or more digits denotes. -/
def natural? (cs : List Char) : Option Nat :=
  if !cs.isEmpty && cs.all Char.isDigit then some (ofDigits cs) else none

/-- The digits of a number, the most significant first; zero has one. -/
def digits (n : Nat) : List Char := Nat.toDigits 10 n

/-- The number of digits of a number. -/
def digitCount (n : Nat) : Nat := (digits n).length

/-- The power of ten with this exponent. -/
def powerOfTen (exponent : Nat) : Nat := Nat.pow 10 exponent

end JsonReader.Number
