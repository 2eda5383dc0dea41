import JsonReader.Text.Hex

/-!
# Percent encoding

The parts of a URL each have a set of characters that are written as the bytes of their UTF-8 form, two
hexadecimal digits behind a percent sign.

## Main definitions

* `PercentSet` and the sets of the parts: `controls`, `fragmentSet`, `querySet`, `pathSet`,
  `userSet`.
* `percentEncode` and `percentDecode`.
-/

namespace JsonReader.UrlText

/-- Which characters are encoded. -/
abbrev PercentSet := Char → Bool

/-- Controls, and all that is not ASCII. -/
def controls : PercentSet := fun c => c.toNat < 0x20 || 0x7F ≤ c.toNat

/-- A set with further characters. -/
def withChars (set : PercentSet) (chars : List Char) : PercentSet :=
  fun c => set c || chars.contains c

/-- The set of fragments. -/
def fragmentSet : PercentSet := withChars controls [' ', '"', '<', '>', Char.ofNat 0x60]

/-- The set of queries. -/
def querySet : PercentSet := withChars controls [' ', '"', '#', '<', '>']

/-- The set of queries of special schemes. -/
def specialQuerySet : PercentSet := withChars querySet ['\'']

/-- The set of paths. -/
def pathSet : PercentSet := withChars fragmentSet ['#', '?', '{', '}']

/-- The set of user names and passwords. -/
def userSet : PercentSet :=
  withChars pathSet ['/', ':', ';', '=', '@', '[', '\\', ']', '^', '|']

/-- The upper-case form of a byte. -/
def percentByte (b : UInt8) : List Char :=
  '%' :: (Text.hexPadded 2 b.toNat).map Char.toUpper

/-- Encodes the characters of a set, byte by byte. -/
def percentEncode (set : PercentSet) (s : List Char) : List Char :=
  s.flatMap fun c =>
    if set c then (String.singleton c).toUTF8.toList.flatMap percentByte else [c]

/-- The codes of a text in which percent signs with two digits are decoded. -/
def percentDecode : List Char → List Nat
  | [] => []
  | '%' :: a :: b :: rest =>
    match Text.hexValues? [a, b] with
    | some n => n :: percentDecode rest
    | none => '%'.toNat :: percentDecode (a :: b :: rest)
  | c :: rest => c.toNat :: percentDecode rest

end JsonReader.UrlText
