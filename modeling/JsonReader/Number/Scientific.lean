import JsonReader.Number.Binary
import JsonReader.Number.Digits

/-!
# Decimal texts of floating-point numbers

## Main definitions

* `Scientific` is a signed decimal with an exponent, `Scientific.read?` reads one from a text.
* `Scientific.toBinary?` rounds it once, straight to the binary format.
-/

namespace JsonReader.Number

/-- The number `± coefficient * 10 ^ exponent`. -/
structure Scientific where
  negative : Bool
  coefficient : Nat
  exponent : Int
  deriving DecidableEq, Repr

namespace Scientific

/-- An optional sign, and the rest: whether the sign is a minus. -/
def readSign : List Char → Bool × List Char
  | '-' :: rest => (true, rest)
  | '+' :: rest => (false, rest)
  | s => (false, s)

/-- The digits before and behind an optional point, and the rest. -/
def readPoint (s : List Char) : List Char × List Char × List Char :=
  let whole := s.takeWhile Char.isDigit
  match s.dropWhile Char.isDigit with
  | '.' :: rest => (whole, rest.takeWhile Char.isDigit, rest.dropWhile Char.isDigit)
  | rest => (whole, [], rest)

/-- The exponent that makes up the whole rest; none means zero. -/
def readExponent? : List Char → Option Int
  | [] => some 0
  | c :: rest =>
    if c = 'e' ∨ c = 'E' then
      let (negative, digits) := readSign rest
      (natural? digits).map fun n => if negative then -(n : Int) else n
    else none

/-- Reads a sign, digits with an optional point, at least one digit in all, and an optional
exponent. Nothing may follow. -/
def read? (s : List Char) : Option Scientific :=
  let (negative, s) := readSign s
  let (whole, fraction, s) := readPoint s
  if whole.isEmpty && fraction.isEmpty then none
  else
    (readExponent? s).map fun e => ⟨negative, ofDigits (whole ++ fraction), e - fraction.length⟩

/-- Rounds to the nearest number of the format, unless that is out of range. Exponents far beyond the
range of the format are settled without computing the power. -/
def toBinary? (f : BinaryFormat) (x : Scientific) : Option (Binary f) :=
  let top := digitCount x.coefficient + x.exponent
  if x.coefficient = 0 then some ⟨x.negative, 0⟩
  else if (f.bias : Int) < top then none
  else if top < -(f.leastExponent : Int) then some ⟨x.negative, 0⟩
  else if 0 ≤ x.exponent then
    Binary.ofRatio? x.negative (x.coefficient * powerOfTen x.exponent.toNat) 1
  else Binary.ofRatio? x.negative x.coefficient (powerOfTen (-x.exponent).toNat)

end Scientific

/-- Reads a decimal text as a finite number of a binary format. -/
def Binary.read? (f : BinaryFormat) (s : List Char) : Option (Binary f) :=
  (Scientific.read? s).bind (Scientific.toBinary? f)

end JsonReader.Number
