import JsonReader.Number.Binary
import JsonReader.Number.Digits

/-!
# Shortest decimal texts

The shortest decimal that reads back as a given binary number, and how it is laid out.

## Main definitions

* `Binary.shortest` is the coarsest decimal that rounds to the number.
* `FloatLayout` says where positional notation ends and which way a tie goes; `messageLayout` and
  `documentLayout` are the two that are in use.
* `Binary.text` writes a number in a layout.
-/

namespace JsonReader.Number

/-- Which of two equally near decimals is taken. -/
inductive DecimalTie
  /-- The one farther from zero. -/
  | up
  /-- The one with an even last digit. -/
  | even
  deriving DecidableEq, Repr

/-- The number `coefficient * 10 ^ exponent`, without a sign. -/
structure ShortDecimal where
  coefficient : Nat
  exponent : Int
  deriving DecidableEq, Repr

/-- The decimals that read back as a magnitude, as a range with the common denominator `scale`. The
ends read back when the magnitude is even. -/
structure ReadBack where
  low : Nat
  value : Nat
  high : Nat
  scale : Nat
  closed : Bool

namespace ReadBack

/-- The range of a positive magnitude reaches half way to its neighbours. -/
def ofMagnitude (f : BinaryFormat) (magnitude : Nat) : ReadBack where
  low := f.units (magnitude - 1) + f.units magnitude
  value := 2 * f.units magnitude
  high := f.units magnitude + f.units (magnitude + 1)
  scale := 1 <<< (f.leastExponent + 1)
  closed := magnitude % 2 = 0

/-- The range in multiples of a power of ten, so that decimals of that exponent are integers. -/
def rescale (r : ReadBack) : Int → ReadBack
  | .ofNat e => { r with scale := r.scale * powerOfTen e }
  | .negSucc e =>
    let p := powerOfTen (e + 1)
    { r with low := r.low * p, value := r.value * p, high := r.high * p }

/-- Whether an integer lies in the range. -/
def contains (r : ReadBack) (n : Nat) : Bool :=
  let m := n * r.scale
  if r.closed then r.low ≤ m && m ≤ r.high else r.low < m && m < r.high

/-- Which of the neighbours `n` and `n + 1` of the value is nearer. -/
def nearer (r : ReadBack) (tie : DecimalTie) (n : Nat) : Nat :=
  let below := r.value - n * r.scale
  let above := (n + 1) * r.scale - r.value
  if below < above then n
  else if above < below then n + 1
  else match tie with
    | .up => n + 1
    | .even => n + n % 2

/-- The integer next to the value that lies in the range, the nearer one where both do. -/
def integer? (r : ReadBack) (tie : DecimalTie) : Option Nat :=
  let n := r.value / r.scale
  match r.contains n, r.contains (n + 1) with
  | true, true => some (r.nearer tie n)
  | true, false => some n
  | false, true => some (n + 1)
  | false, false => none

/-- Tries exponents downwards from `e`; the last one, `e - count`, is taken to be exact. -/
def search (r : ReadBack) (tie : DecimalTie) : Nat → Int → ShortDecimal
  | 0, e => ⟨(r.rescale e).value / (r.rescale e).scale, e⟩
  | count + 1, e =>
    match (r.rescale e).integer? tie with
    | some n => ⟨n, e⟩
    | none => r.search tie count (e - 1)

end ReadBack

/-- An exponent of ten above the range of a format. -/
def BinaryFormat.topExponent (f : BinaryFormat) : Nat := f.bias / 3 + 1

/-- How a number is laid out. The point stands behind the digit of number `point`; positional
notation is used while `point` lies between the two bounds. -/
structure FloatLayout where
  leastPoint : Int
  greatestPoint : Int
  tie : DecimalTie

/-- Messages write numbers from 0.0001 up to 10 ^ 16 positionally, and a tie goes up. -/
def messageLayout : FloatLayout := ⟨-3, 16, .up⟩

/-- Documents write numbers from 0.00001 up to 10 ^ 16 positionally, and a tie goes to even. -/
def documentLayout : FloatLayout := ⟨-4, 16, .even⟩

namespace FloatLayout

/-- Lays out a decimal without a sign. Positional notation keeps a fraction, an exponent needs
none. -/
def text (layout : FloatLayout) (d : ShortDecimal) : List Char :=
  let ds := digits d.coefficient
  let point := ds.length + d.exponent
  if point < layout.leastPoint ∨ layout.greatestPoint < point then
    let fraction := ds.drop 1
    ds.take 1 ++ (if fraction.isEmpty then [] else '.' :: fraction) ++
      'e' :: (toString (point - 1)).toList
  else if point ≤ 0 then ['0', '.'] ++ List.replicate (-point).toNat '0' ++ ds
  else if d.exponent < 0 then ds.take point.toNat ++ '.' :: ds.drop point.toNat
  else ds ++ List.replicate d.exponent.toNat '0' ++ ['.', '0']

end FloatLayout

namespace Binary

variable {f : BinaryFormat}

/-- The decimal with the greatest exponent that reads back, and of two such the nearer one. -/
def shortest (tie : DecimalTie) (x : Binary f) : ShortDecimal :=
  if x.magnitude = 0 then ⟨0, 0⟩
  else
    (ReadBack.ofMagnitude f x.magnitude).search tie (f.topExponent + f.leastExponent) f.topExponent

/-- The shortest text that reads back, in a layout. Zero keeps its sign. -/
def text (layout : FloatLayout) (x : Binary f) : String :=
  String.ofList ((if x.negative then ['-'] else []) ++ layout.text (x.shortest layout.tie))

end Binary

end JsonReader.Number
