import JsonReader.Number.Digits

/-!
# Integers of fixed width

## Main definitions

* `IntType` is a width with or without a sign; `IntType.min` and `IntType.max` bound its values.
* `IntType.push?` puts a digit behind a number, `IntType.read?` reads a text as a value of the type.
-/

namespace JsonReader.Number

/-- An integer type: its width in bits, and whether it has a sign. -/
structure IntType where
  signed : Bool
  width : Nat
  deriving DecidableEq, Repr

namespace IntType

def i8 : IntType := ⟨true, 8⟩
def i16 : IntType := ⟨true, 16⟩
def i32 : IntType := ⟨true, 32⟩
def i64 : IntType := ⟨true, 64⟩
def u8 : IntType := ⟨false, 8⟩
def u16 : IntType := ⟨false, 16⟩
def u32 : IntType := ⟨false, 32⟩
def u64 : IntType := ⟨false, 64⟩

/-- The name of a type in messages. -/
def name (t : IntType) : String := (if t.signed then "i" else "u") ++ toString t.width

/-- The least value. -/
def min (t : IntType) : Int := if t.signed then -(1 <<< (t.width - 1) : Nat) else 0

/-- The greatest value. -/
def max (t : IntType) : Int := (1 <<< (if t.signed then t.width - 1 else t.width) : Nat) - 1

/-- Whether a number is a value of the type. -/
def holds (t : IntType) (n : Int) : Bool := t.min ≤ n && n ≤ t.max

/-- The number as a value of the type, unless it is out of range. -/
def checked? (t : IntType) (n : Int) : Option Int := if t.holds n then some n else none

/-- Puts one more digit behind a number, away from zero. Neither the shift by a place nor the digit
may leave the range. -/
def push? (t : IntType) (negative : Bool) (n : Int) (c : Char) : Option Int := do
  let d ← digitValue? c
  let shifted ← t.checked? (10 * n)
  t.checked? (if negative then shifted - d else shifted + d)

/-- Reads one or more digits from the left, within the range of the type all the way. -/
def readDigits? (t : IntType) (negative : Bool) (digits : List Char) : Option Int :=
  if digits.isEmpty then none else digits.foldlM (t.push? negative) 0

/-- Reads a text as a value of the type: a plus, or a minus where the type has a sign, may come
before the digits. A number out of range is refused. -/
def read? (t : IntType) : List Char → Option Int
  | '+' :: digits => t.readDigits? false digits
  | '-' :: digits => if t.signed then t.readDigits? true digits else none
  | digits => t.readDigits? false digits

/-- Keeps the low bits of a number, as a value of the type. -/
def wrap (t : IntType) (n : Int) : Int :=
  if t.signed then n.bmod (1 <<< t.width) else n.emod (1 <<< t.width : Nat)

end IntType

end JsonReader.Number
