/-!
# Encoded labels of names

A label of a name that holds characters beyond ASCII is written as the ASCII characters of the label,
a hyphen, and digits that say which other characters stand where.

## Main definitions

* `Punycode.decode?` reads such a text.
-/

namespace JsonReader.Punycode

/-- The value of a digit to the base 36: letters come first. -/
def digit? (c : Char) : Option Nat :=
  if 'a' ≤ c ∧ c ≤ 'z' then some (c.toNat - 'a'.toNat)
  else if 'A' ≤ c ∧ c ≤ 'Z' then some (c.toNat - 'A'.toNat)
  else if c.isDigit then some (c.toNat - '0'.toNat + 26)
  else none

/-- Digits below the threshold of their place end a number. -/
def threshold (place bias : Nat) : Nat :=
  if place ≤ bias then 1 else if bias + 26 ≤ place then 26 else place - bias

/-- Divides by 35 until the number is small, counting 36 for each division. -/
def damp (delta : Nat) : Nat × Nat :=
  if 455 < delta then
    let (delta, count) := damp (delta / 35)
    (delta, count + 36)
  else (delta, 0)
termination_by delta
decreasing_by omega

/-- The bias after a number, from which the next thresholds follow. -/
def adapt (delta count : Nat) (first : Bool) : Nat :=
  let delta := if first then delta / 700 else delta / 2
  let (delta, k) := damp (delta + delta / count)
  k + 36 * delta / (delta + 38)

/-- A number of variable length, and the rest. -/
def readNumber? (bias place weight value : Nat) : List Char → Option (Nat × List Char)
  | [] => none
  | c :: rest =>
    match digit? c with
    | none => none
    | some d =>
      let value := value + d * weight
      let t := threshold place bias
      if d < t then some (value, rest) else readNumber? bias (place + 36) (weight * (36 - t)) value rest

theorem length_lt_of_readNumber? {bias place weight value n : Nat} {s rest : List Char}
    (h : readNumber? bias place weight value s = some (n, rest)) : rest.length < s.length := by
  induction s generalizing place weight value with
  | nil => simp [readNumber?] at h
  | cons c s ih =>
    unfold readNumber? at h
    split at h
    · simp at h
    · dsimp only at h
      split at h
      · simp only [Option.some.injEq, Prod.mk.injEq] at h
        obtain ⟨-, rfl⟩ := h
        exact Nat.lt_succ_self _
      · exact Nat.lt_succ_of_lt (ih h)

/-- Inserts one character for each number: numbers count the places from the last insertion on, over
the rising codes. -/
def insertAll? (code index bias : Nat) (first : Bool) (label : List Char) (s : List Char) :
    Option (List Char) :=
  if s = [] then some label
  else
    match h : readNumber? bias 36 1 0 s with
    | none => none
    | some (delta, rest) =>
      have : rest.length < s.length := length_lt_of_readNumber? h
      let count := label.length + 1
      let place := index + delta
      let code := code + place / count
      if code < 0x110000 ∧ ¬(0xD800 ≤ code ∧ code < 0xE000) then
        insertAll? code (place % count + 1) (adapt delta count first) false
          (label.take (place % count) ++ Char.ofNat code :: label.drop (place % count)) rest
      else none
termination_by s.length

/-- The label that a text stands for. The last hyphen ends the characters that stand for
themselves. -/
def decode? (s : List Char) : Option (List Char) :=
  let digits := (s.reverse.takeWhile (· != '-')).reverse
  insertAll? 0x80 0 72 true (s.take (s.length - digits.length - 1)) digits

end JsonReader.Punycode
