import JsonReader.Number.Digits
import JsonReader.Number.Integer

/-!
# Scaled decimals

Decimals with a coefficient below 2 ^ 96 and at most 28 digits behind the point. The number of digits
behind the point is part of the value: `1.5` and `1.50` differ.

## Main definitions

* `ScaledDecimal`, with `ScaledDecimal.text` in plain notation.
* `ScaledDecimal.readPlain?` reads plain notation, either exactly or rounding what does not fit.
* `ScaledDecimal.readScientific?` reads a number with an exponent.
* `ScaledDecimal.Reader` is a reading for either notation, `Reader.standard` the one of this module.
-/

namespace JsonReader.Number

/-- The number `± coefficient / 10 ^ scale`. -/
structure ScaledDecimal where
  negative : Bool
  coefficient : Nat
  scale : Nat
  deriving DecidableEq, Repr

namespace ScaledDecimal

/-- Coefficients are below this bound. -/
def bound : Nat := 1 <<< 96

/-- The greatest number of digits behind the point. -/
def maxScale : Nat := 28

/-- A zero has no sign. -/
def ofParts (negative : Bool) (coefficient scale : Nat) : ScaledDecimal :=
  ⟨negative && coefficient != 0, coefficient, scale⟩

/-- The integer part, and the point with `scale` digits unless there are none. -/
def text (d : ScaledDecimal) : String :=
  let ds := digits d.coefficient
  let padded := List.replicate (d.scale + 1 - ds.length) '0' ++ ds
  let whole := padded.take (padded.length - d.scale)
  let fraction := padded.drop (padded.length - d.scale)
  String.ofList <| (if d.negative then ['-'] else []) ++ whole ++
    (if fraction.isEmpty then [] else '.' :: fraction)

/-- What happens to digits that do not fit behind the point. -/
inductive Excess
  /-- The text is refused. -/
  | refuse
  /-- The first of them rounds, five and above away from zero, and the others are not looked at. -/
  | round
  deriving DecidableEq, Repr

/-- Adds one in the last place; a coefficient that then no longer fits loses its last digit. -/
def increment? (coefficient scale : Nat) : Option (Nat × Nat) :=
  if coefficient + 1 < bound then some (coefficient + 1, scale)
  else if scale = 0 then none
  else some ((coefficient + 5) / 10, scale - 1)

/-- Rounds by the first digit that does not fit. A separator or a point in its place counts as
zero. -/
def roundBy? (coefficient scale : Nat) (next : Char) : Option (Nat × Nat) :=
  match digitValue? next with
  | some d => if 5 ≤ d then increment? coefficient scale else some (coefficient, scale)
  | none => if next = '_' ∨ next = '.' then some (coefficient, scale) else none

/-- The first character that is no separator, or the last separator. -/
def nextDigit (first : Char) (rest : List Char) : Char :=
  if first = '_' then (rest.find? (· != '_')).getD '_' else first

/-- Reads digits with at most one point; separators may stand behind a digit. The arguments say
whether the point and a digit have been seen, and what has been read. -/
def readDigits? (excess : Excess) (point digit : Bool) (coefficient scale : Nat) :
    List Char → Option (Nat × Nat)
  | [] => if digit then some (coefficient, scale) else none
  | c :: rest =>
    match digitValue? c with
    | some d =>
      let coefficient' := 10 * coefficient + d
      let scale' := if point then scale + 1 else 0
      if bound ≤ coefficient' then
        match point, excess with
        | true, .round => roundBy? coefficient scale c
        | _, _ => none
      else
        match rest with
        | next :: after =>
          if point && maxScale ≤ scale' then
            match excess with
            | .round => roundBy? coefficient' scale' (nextDigit next after)
            | .refuse => none
          else readDigits? excess point true coefficient' scale' (next :: after)
        | [] => some (coefficient', scale')
    | none =>
      if c = '.' ∧ point = false then readDigits? excess true digit coefficient scale rest
      else if c = '_' ∧ digit = true then readDigits? excess point digit coefficient scale rest
      else none

/-- Reads an optional sign and digits with at most one point. -/
def readPlain? (excess : Excess) (s : List Char) : Option ScaledDecimal :=
  let (negative, s) := match s with
    | '-' :: rest => (true, rest)
    | '+' :: rest => (false, rest)
    | s => (false, s)
  (readDigits? excess false false 0 0 s).map fun (coefficient, scale) =>
    ofParts negative coefficient scale

/-- Multiplies by a power of ten: digits behind the point are used up first, then the coefficient
grows. -/
def raise? (d : ScaledDecimal) (exponent : Nat) : Option ScaledDecimal :=
  if exponent ≤ d.scale then some { d with scale := d.scale - exponent }
  else if maxScale < exponent then none
  else
    let coefficient := d.coefficient * powerOfTen (exponent - d.scale)
    if coefficient < bound then some { d with coefficient, scale := 0 } else none

/-- Divides by a power of ten, which adds digits behind the point. -/
def lower? (d : ScaledDecimal) (exponent : Nat) : Option ScaledDecimal :=
  if exponent ≤ maxScale ∧ d.scale + exponent ≤ maxScale then
    some { d with scale := d.scale + exponent }
  else none

/-- The exponent mark, in either case. -/
def isExponentMark (c : Char) : Bool := c == 'e' || c == 'E'

/-- Reads a number with an exponent mark. The part before the mark is rounded where it does not
fit. -/
def readScientific? (s : List Char) : Option ScaledDecimal :=
  match readPlain? .round (s.takeWhile (!isExponentMark ·)), s.dropWhile (!isExponentMark ·) with
  | some d, _ :: '-' :: exponent =>
    (IntType.u32.read? exponent).bind fun e => d.lower? e.toNat
  | some d, _ :: exponent => (IntType.u32.read? exponent).bind fun e => d.raise? e.toNat
  | _, _ => none

/-- How numbers are read: those without an exponent, and those with one. -/
structure Reader where
  plain? : List Char → Option ScaledDecimal
  scientific? : List Char → Option ScaledDecimal

namespace Reader

/-- Refuses what does not fit, and rounds it before an exponent. -/
def standard : Reader := ⟨readPlain? .refuse, readScientific?⟩

/-- Reads a number by its notation. -/
def read? (r : Reader) (s : List Char) : Option ScaledDecimal :=
  if s.any isExponentMark then r.scientific? s else r.plain? s

end Reader

end ScaledDecimal

end JsonReader.Number
