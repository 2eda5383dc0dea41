import JsonReader.Lexeme.NumberLiteral
import JsonReader.Number.Digits
import JsonReader.Value.Basic

/-!
# Reading numbers of documents

A number text is read by the grammar of number literals. Integers that fit in 64 bits stay integers;
minus zero and every other number is a binary one. The binary number is computed in two roundings:
as many leading digits as fit in 64 bits are rounded to a binary number, and that is multiplied or
divided by a power of ten.

## Main definitions

* `scaleByTen?` is the second step.
* `NumberValue.read?` reads a number text.
-/

namespace JsonReader

open Number

/-- The greatest power of ten that is a finite binary number is ten to this power. -/
def greatestPower : Nat := 308

/-- A power of ten as a binary number. -/
def binaryPower (exponent : Nat) : Nat := binary64.nearest (powerOfTen exponent) 1

/-- The product of two magnitudes, unless it is out of range. -/
def multiply? (a b : Nat) : Option Nat :=
  let product := binary64.nearest (binary64.units a * binary64.units b)
    (1 <<< (2 * binary64.leastExponent))
  if product < binary64.infinity then some product else none

/-- The quotient of two magnitudes. -/
def divide (a b : Nat) : Nat := binary64.nearest (binary64.units a) (binary64.units b)

/-- Divides a magnitude by a power of ten, one division for each `greatestPower`. -/
def divideByTen (magnitude exponent : Nat) : Nat :=
  if magnitude = 0 then 0
  else if exponent ≤ greatestPower then divide magnitude (binaryPower exponent)
  else divideByTen (divide magnitude (binaryPower greatestPower)) (exponent - greatestPower)
termination_by exponent
decreasing_by
  simp only [greatestPower, Nat.not_le] at *
  omega

/-- Multiplies a magnitude by a power of ten, unless that is out of range. -/
def scaleByTen? (magnitude : Nat) : Int → Option Nat
  | .ofNat exponent =>
    if exponent ≤ greatestPower then multiply? magnitude (binaryPower exponent)
    else if magnitude = 0 then some 0
    else none
  | .negSucc exponent => some (divideByTen magnitude (exponent + 1))

/-- The greatest integer of 64 bits without a sign, which bounds the digits that count. -/
def greatestSignificand : Nat := 0xFFFFFFFFFFFFFFFF

/-- Reads leading digits while the number fits in 64 bits: the number, and the digits that are
left. -/
def takeSignificand (significand : Nat) : List Char → Nat × List Char
  | [] => (significand, [])
  | c :: rest =>
    let next := 10 * significand + (c.toNat - '0'.toNat)
    if next ≤ greatestSignificand then takeSignificand next rest else (significand, c :: rest)

/-- An exponent beyond this bound is not computed with. -/
def greatestExponent : Nat := 0x7FFFFFFF

/-- The binary number of a number text with the given parts. Digits of the whole part that do not
count raise the exponent, those of the fraction have no effect. -/
def floatOfParts? (negative : Bool) (whole fraction : List Char) (exponent : Int) :
    Option (Binary binary64) :=
  let (significand, leftWhole) := takeSignificand 0 whole
  let (significand, leftFraction) := takeSignificand significand fraction
  let magnitude :=
    if greatestExponent < exponent.natAbs then
      if significand ≠ 0 ∧ 0 < exponent then none else some 0
    else
      scaleByTen? (binary64.nearest significand 1)
        (exponent + leftWhole.length - (fraction.length - leftFraction.length : Nat))
  magnitude.map fun m => ⟨negative, m⟩

/-- The number that an exponent part denotes; none denotes zero. -/
def exponentValue (part : List Char) : Int :=
  match part.drop 1 with
  | '-' :: ds => -(ofDigits ds : Int)
  | '+' :: ds => ofDigits ds
  | ds => ofDigits ds

/-- Integers that fit stay integers, but minus zero does not. -/
def integerOfWhole? (negative : Bool) (n : Nat) : Option NumberValue :=
  if negative then
    if n = 0 then none
    else if IntType.i64.holds (-n) then some (.integer (-n))
    else none
  else if IntType.u64.holds n then some (.integer n)
  else none

/-- Reads a number text. Nothing may follow, and a binary number has to be in range. -/
def NumberValue.read? (s : List Char) : Option NumberValue :=
  let (minus, s) := takeMinus s
  let negative := !minus.isEmpty
  match takeWhole? s with
  | none => none
  | some (whole, s) =>
    let (fraction, s) := takeFraction s
    let (exponent, s) := takeExponent s
    if !s.isEmpty then none
    else
      match integerOfWhole? negative (ofDigits whole), fraction, exponent with
      | some n, [], [] => some n
      | _, _, _ =>
        (floatOfParts? negative whole (fraction.drop 1) (exponentValue exponent)).map
          NumberValue.float

end JsonReader
