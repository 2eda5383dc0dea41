import JsonReader.Number.Digits
import JsonReader.Text.Hex
import JsonReader.Url.Percent
import JsonReader.Url.Punycode

/-!
# Hosts of URLs

## Main definitions

* `Host` is a name, an address of four bytes or one of eight pieces; `Host.text` writes it.
* `Host.readIpv4?` and `Host.readIpv6?` read addresses.
* `Host.readSpecial?` reads the host of a special scheme, `Host.readOpaque?` any other.
-/

namespace JsonReader

/-- A host. A name is kept as it is written. -/
inductive Host
  | name (text : String)
  | ipv4 (address : Nat)
  | ipv6 (pieces : List Nat)
  deriving DecidableEq, Repr

namespace Host

open Text Number

/-! ## Texts -/

/-- The four bytes of an address in decimal. -/
def ipv4Text (address : Nat) : List Char :=
  digits ((address >>> 24) % 256) ++ '.' :: digits ((address >>> 16) % 256) ++
    '.' :: digits ((address >>> 8) % 256) ++ '.' :: digits (address % 256)

/-- The number of leading zeros. -/
def leadingZeros (pieces : List Nat) : Nat := (pieces.takeWhile (· = 0)).length

/-- The start and the length of the longest run of zeros, and of several the first. -/
def longestZeros : List Nat → Nat × Nat
  | [] => (0, 0)
  | p :: pieces =>
    let (start, length) := longestZeros pieces
    let here := leadingZeros (p :: pieces)
    if length ≤ here then (0, here) else (start + 1, length)

/-- Pieces in hexadecimal with colons between them. -/
def piecesText (pieces : List Nat) : List Char :=
  [':'].intercalate (pieces.map hexText)

/-- The pieces of an address; the longest run of two or more zeros is left out. -/
def ipv6Text (pieces : List Nat) : List Char :=
  let (start, length) := longestZeros pieces
  if length < 2 then piecesText pieces
  else piecesText (pieces.take start) ++ [':', ':'] ++ piecesText (pieces.drop (start + length))

/-- The host in a URL. -/
def text : Host → String
  | name s => s
  | ipv4 address => String.ofList (ipv4Text address)
  | ipv6 pieces => String.ofList ('[' :: ipv6Text pieces ++ [']'])

/-! ## Addresses of four bytes -/

/-- Cuts a text at a separator. -/
def splitAt (separator : Char) : List Char → List (List Char)
  | [] => [[]]
  | c :: rest =>
    if c = separator then [] :: splitAt separator rest
    else
      match splitAt separator rest with
      | part :: parts => (c :: part) :: parts
      | [] => [[c]]

/-- The number that a row of digits to a base denotes; an empty row is zero. -/
def ofBase? (base : Nat) (s : List Char) : Option Nat :=
  s.foldlM (fun n c => (hexValue? c).bind fun d => if d < base then some (base * n + d) else none) 0

/-- A number in decimal, in octal behind a zero or in hexadecimal behind `0x`. -/
def readNumber? : List Char → Option Nat
  | [] => none
  | '0' :: 'x' :: rest => ofBase? 16 rest
  | '0' :: 'X' :: rest => ofBase? 16 rest
  | ['0'] => some 0
  | '0' :: rest => ofBase? 8 rest
  | s => ofBase? 10 s

/-- The parts of a name, without an empty one at the end. -/
def nameParts (s : List Char) : List (List Char) :=
  let parts := splitAt '.' s
  if parts.getLast? = some [] then parts.dropLast else parts

/-- Whether the last part of a name is a number, so that the name has to be an address. -/
def endsInNumber (s : List Char) : Bool :=
  match (nameParts s).getLast? with
  | some part => (!part.isEmpty && part.all Char.isDigit) || (readNumber? part).isSome
  | none => false

/-- Puts an address together: the last number fills all bytes that are left. -/
def joinNumbers? : List Nat → Option Nat
  | [a] => if a < 0x100000000 then some a else none
  | [a, b] => if a < 0x100 ∧ b < 0x1000000 then some ((a <<< 24) + b) else none
  | [a, b, c] =>
    if a < 0x100 ∧ b < 0x100 ∧ c < 0x10000 then some ((a <<< 24) + (b <<< 16) + c) else none
  | [a, b, c, d] =>
    if a < 0x100 ∧ b < 0x100 ∧ c < 0x100 ∧ d < 0x100 then
      some ((a <<< 24) + (b <<< 16) + (c <<< 8) + d)
    else none
  | _ => none

/-- An address of up to four numbers. -/
def readIpv4? (s : List Char) : Option Nat :=
  ((nameParts s).mapM readNumber?).bind joinNumbers?

/-! ## Addresses of eight pieces -/

/-- One to four hexadecimal digits. -/
def readPiece? (s : List Char) : Option Nat :=
  if s.isEmpty || 4 < s.length then none else hexValues? s

/-- A decimal number below 256 without a leading zero. -/
def readByte? (s : List Char) : Option Nat :=
  if 1 < s.length && s.head? = some '0' then none
  else (natural? s).filter (· < 256)

/-- Two pieces written as four bytes. -/
def readBytes? (s : List Char) : Option (List Nat) := do
  match ← (splitAt '.' s).mapM readByte? with
  | [a, b, c, d] => some [256 * a + b, 256 * c + d]
  | _ => none

/-- Pieces with colons between them, of which the last may be four bytes where that is allowed. -/
def readPieces? (bytes : Bool) : List (List Char) → Option (List Nat)
  | [] => some []
  | [part] =>
    if bytes && part.contains '.' then readBytes? part else (readPiece? part).map ([·])
  | part :: parts => do
    let piece ← readPiece? part
    let pieces ← readPieces? bytes parts
    some (piece :: pieces)

/-- The pieces of a text, none for an empty one. -/
def readRow? (bytes : Bool) (s : List Char) : Option (List Nat) :=
  if s.isEmpty then some [] else readPieces? bytes (splitAt ':' s)

/-- Cuts a text at the first pair of colons. -/
def splitGap? : List Char → Option (List Char × List Char)
  | ':' :: ':' :: rest => some ([], rest)
  | c :: rest => (splitGap? rest).map fun (before, behind) => (c :: before, behind)
  | [] => none

/-- Eight pieces, or fewer around a pair of colons that stands for at least one zero. -/
def readIpv6? (s : List Char) : Option (List Nat) :=
  match splitGap? s with
  | none => (readRow? true s).filter (·.length = 8)
  | some (before, behind) => do
    let first ← readRow? false before
    let last ← readRow? true behind
    let count := first.length + last.length
    if count ≤ 7 then some (first ++ List.replicate (8 - count) 0 ++ last) else none

/-- An address between brackets; the opening bracket has been taken off. -/
def readBracketed? (s : List Char) : Option Host :=
  if s.getLast? = some ']' then (readIpv6? s.dropLast).map ipv6 else none

/-! ## Hosts -/

/-- What no host may hold. -/
def isForbidden (c : Char) : Bool :=
  [Char.ofNat 0, '\t', '\n', '\r', ' ', '#', '/', ':', '<', '>', '?', '@', '[', '\\', ']', '^',
    '|'].contains c

/-- What no name of a special scheme may hold. -/
def isForbiddenInName (c : Char) : Bool :=
  isForbidden c || c.toNat < 0x20 || c = '%' || 0x7F ≤ c.toNat

/-- A label that is marked as encoded has to decode to one that is not ASCII and holds no controls. -/
def isLabel : List Char → Bool
  | 'x' :: 'n' :: '-' :: '-' :: rest =>
    match Punycode.decode? rest with
    | some label => label.any (0x7F < ·.toNat) && label.all fun c => c.toNat < 0x7F || 0x9F < c.toNat
    | none => false
  | _ => true

/-- The host of a special scheme: percent signs are decoded, letters are lowered, and a name that ends
in a number is an address. Names are ASCII. -/
def readSpecial? (s : List Char) : Option Host :=
  match s with
  | '[' :: rest => readBracketed? rest
  | s =>
    let name := (UrlText.percentDecode s).map fun n => (Char.ofNat n).toLower
    if name.isEmpty || name.any isForbiddenInName || !(splitAt '.' name).all isLabel then none
    else if endsInNumber name then (readIpv4? name).map ipv4
    else some (.name (String.ofList name))

/-- The host of any other scheme, which may be empty. -/
def readOpaque? (s : List Char) : Option Host :=
  match s with
  | '[' :: rest => readBracketed? rest
  | s =>
    if s.any isForbidden then none
    else some (.name (String.ofList (UrlText.percentEncode UrlText.controls s)))

end Host

end JsonReader
