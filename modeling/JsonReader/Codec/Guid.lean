import JsonReader.Text.Hex

/-!
# Globally unique identifiers

## Main definitions

* `Guid` is a number of 128 bits.
* `Guid.text` writes the hyphenated form in lower case, `Guid.read?` reads it in either case.
* `Guid.parse?` reads the other forms too; `Guid.Reader` is any such reading.
-/

namespace JsonReader.Codec

/-- An identifier of 128 bits. -/
structure Guid where
  bits : BitVec 128
  deriving DecidableEq, Repr

namespace Guid

/-- What texts denote as identifiers. -/
abbrev Reader := List Char → Option Guid

/-- The lengths of the five groups of digits. -/
def groups : List Nat := [8, 4, 4, 4, 12]

/-- Cuts a row of digits into groups with a hyphen between two of them. -/
def hyphenate : List Nat → List Char → List Char
  | [], digits => digits
  | [_], digits => digits
  | n :: ns, digits => digits.take n ++ '-' :: hyphenate ns (digits.drop n)

/-- Takes the digits out of their groups; hyphens stand between the groups and nowhere else. -/
def dehyphenate? : List Nat → List Char → Option (List Char)
  | [], s => if s = [] then some [] else none
  | [n], s => if s.length = n then some s else none
  | n :: ns, s =>
    if (s.take n).length = n then
      match s.drop n with
      | '-' :: rest => (dehyphenate? ns rest).map (s.take n ++ ·)
      | _ => none
    else none

/-- The hyphenated form in lower case. -/
def text (g : Guid) : String :=
  String.ofList (hyphenate groups (Text.hexPadded 32 g.bits.toNat))

/-- The identifier that a row of digits denotes. -/
def ofDigits? (digits : List Char) : Option Guid :=
  (Text.hexValues? digits).map fun n => ⟨BitVec.ofNat 128 n⟩

/-- Reads the hyphenated form, with digits of either case. -/
def read? (s : List Char) : Option Guid := (dehyphenate? groups s).bind ofDigits?

/-- The number of bytes of the hyphenated form. -/
def textSize : Nat := 36

/-- Reads the digits alone. -/
def readPlain? (s : List Char) : Option Guid :=
  if s.length = 32 then ofDigits? s else none

/-- What stands between braces. -/
def unbrace? : List Char → Option (List Char)
  | '{' :: s => if s.getLast? = some '}' then some s.dropLast else none
  | _ => none

/-- How the name of an identifier as a resource begins. -/
def urnStart : List Char := ['u', 'r', 'n', ':', 'u', 'u', 'i', 'd', ':']

/-- What stands behind the beginning of such a name. -/
def unname? (s : List Char) : Option (List Char) :=
  if s.take urnStart.length = urnStart then some (s.drop urnStart.length) else none

/-- Reads any form: the digits alone, or the hyphenated form by itself, in braces or as a name. -/
def parse? (s : List Char) : Option Guid :=
  (readPlain? s).or ((read? s).or (((unbrace? s).bind read?).or ((unname? s).bind read?)))

end Guid

end JsonReader.Codec
