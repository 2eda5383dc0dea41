/-!
# Binary floating-point numbers

The interchange formats with one sign bit, an exponent field and a fraction field. A finite number
is a sign and a magnitude, and the magnitude is the bit pattern without the sign: magnitudes are
ordered as the numbers are, and the least positive number has magnitude one.

## Main definitions

* `BinaryFormat`, with `binary32` and `binary64`.
* `BinaryFormat.units` gives the value of a magnitude in multiples of the least positive number.
* `BinaryFormat.nearest` rounds a quotient to the nearest magnitude, ties to the even one.
* `Binary` is a number of a format.
-/

namespace JsonReader.Number

/-- Rounds a quotient to the nearest natural number, a tie to the even one. -/
def roundDivEven (num den : Nat) : Nat :=
  let q := num / den
  let r := num % den
  if 2 * r < den then q
  else if den < 2 * r then q + 1
  else q + q % 2

/-- A binary interchange format: the bits of its fraction, and the bias of its exponent. -/
structure BinaryFormat where
  fractionBits : Nat
  bias : Nat
  deriving DecidableEq, Repr

def binary32 : BinaryFormat := ⟨23, 127⟩
def binary64 : BinaryFormat := ⟨52, 1023⟩

namespace BinaryFormat

/-- The least positive number is two to the minus this power. -/
def leastExponent (f : BinaryFormat) : Nat := f.bias + f.fractionBits - 1

/-- The magnitude of infinity, which is above those of all numbers. -/
def infinity (f : BinaryFormat) : Nat := (2 * f.bias + 1) <<< f.fractionBits

/-- The weight of the sign bit. -/
def signBit (f : BinaryFormat) : Nat := (2 * f.bias + 2) <<< f.fractionBits

/-- The value of a magnitude, in multiples of the least positive number. -/
def units (f : BinaryFormat) (magnitude : Nat) : Nat :=
  let fraction := magnitude % (1 <<< f.fractionBits)
  match magnitude >>> f.fractionBits with
  | 0 => fraction
  | e + 1 => ((1 <<< f.fractionBits) + fraction) <<< e

/-- The magnitude nearest to `num / den`, a tie going to the even one. Quotients that are too large
give infinity or more. -/
def nearest (f : BinaryFormat) (num den : Nat) : Nat :=
  let scaled := num <<< f.leastExponent
  let shift := Nat.log2 (scaled / den) - f.fractionBits
  (shift <<< f.fractionBits) + roundDivEven scaled (den <<< shift)

end BinaryFormat

/-- A number of a binary format. -/
structure Binary (f : BinaryFormat) where
  negative : Bool
  magnitude : Nat
  deriving DecidableEq, Repr

namespace Binary

variable {f : BinaryFormat}

/-- The bit pattern. -/
def bits (x : Binary f) : Nat := (if x.negative then f.signBit else 0) + x.magnitude

/-- The absolute value, in multiples of the least positive number of the format. -/
def units (x : Binary f) : Nat := f.units x.magnitude

/-- The number with this sign that is nearest to `num / den`, unless that is out of range. -/
def ofRatio? (negative : Bool) (num den : Nat) : Option (Binary f) :=
  let magnitude := f.nearest num den
  if magnitude < f.infinity then some ⟨negative, magnitude⟩ else none

end Binary

end JsonReader.Number
