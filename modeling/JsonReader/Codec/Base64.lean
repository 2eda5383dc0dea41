/-!
# Base 64

The standard alphabet, with padding. Only the one canonical text of a byte sequence is read back:
the padding is complete, the unused bits are zero, and nothing else occurs.

## Main definitions

* `encode` and `decode?`; `Decoder` is any reading of such texts.
-/

namespace JsonReader.Codec.Base64

/-- What texts denote as rows of bytes. -/
abbrev Decoder := List Char → Option (List UInt8)

/-- The character of a value below 64. -/
def sextetChar (n : Nat) : Char :=
  if n < 26 then Char.ofNat ('A'.toNat + n)
  else if n < 52 then Char.ofNat ('a'.toNat + (n - 26))
  else if n < 62 then Char.ofNat ('0'.toNat + (n - 52))
  else if n = 62 then '+'
  else '/'

/-- The value of a character of the alphabet. -/
def sextet? (c : Char) : Option Nat :=
  if 'A' ≤ c ∧ c ≤ 'Z' then some (c.toNat - 'A'.toNat)
  else if 'a' ≤ c ∧ c ≤ 'z' then some (c.toNat - 'a'.toNat + 26)
  else if '0' ≤ c ∧ c ≤ '9' then some (c.toNat - '0'.toNat + 52)
  else if c = '+' then some 62
  else if c = '/' then some 63
  else none

/-- The character of a value below 64 reads back. -/
theorem sextet?_sextetChar {n : Nat} (h : n < 64) : sextet? (sextetChar n) = some n := by
  have all : ∀ m ∈ List.range 64, sextet? (sextetChar m) = some m := by decide
  exact all n (List.mem_range.mpr h)

/-- Three bytes are four characters; one or two bytes at the end are padded. -/
def encode : List UInt8 → List Char
  | [] => []
  | [a] =>
    let n := a.toNat * 16
    [sextetChar (n / 64), sextetChar (n % 64), '=', '=']
  | [a, b] =>
    let n := (a.toNat * 256 + b.toNat) * 4
    [sextetChar (n / 4096), sextetChar (n / 64 % 64), sextetChar (n % 64), '=']
  | a :: b :: c :: rest =>
    let n := (a.toNat * 256 + b.toNat) * 256 + c.toNat
    sextetChar (n / 262144) :: sextetChar (n / 4096 % 64) :: sextetChar (n / 64 % 64) ::
      sextetChar (n % 64) :: encode rest

/-- The one byte of two characters, whose four lowest bits must be zero. -/
def oneByte? (a b : Char) : Option (List UInt8) := do
  let n := (← sextet? a) * 64 + (← sextet? b)
  if n % 16 = 0 then some [UInt8.ofNat (n / 16)] else none

/-- The two bytes of three characters, whose two lowest bits must be zero. -/
def twoBytes? (a b c : Char) : Option (List UInt8) := do
  let n := ((← sextet? a) * 64 + (← sextet? b)) * 64 + (← sextet? c)
  if n % 4 = 0 then some [UInt8.ofNat (n / 4 / 256), UInt8.ofNat (n / 4 % 256)] else none

/-- The three bytes of four characters. -/
def threeBytes? (a b c d : Char) : Option (List UInt8) := do
  let n := (((← sextet? a) * 64 + (← sextet? b)) * 64 + (← sextet? c)) * 64 + (← sextet? d)
  some [UInt8.ofNat (n / 65536), UInt8.ofNat (n / 256 % 256), UInt8.ofNat (n % 256)]

/-- Reads groups of four characters; only the last may be padded. -/
def decode? : List Char → Option (List UInt8)
  | [] => some []
  | [a, b, '=', '='] => oneByte? a b
  | [a, b, c, '='] => twoBytes? a b c
  | a :: b :: c :: d :: rest => do
    let group ← threeBytes? a b c d
    let bytes ← decode? rest
    some (group ++ bytes)
  | _ => none

end JsonReader.Codec.Base64
