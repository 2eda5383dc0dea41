/-!
# Blank characters

The characters with the Unicode property `White_Space`, and trimming a text of them.

## Main definitions

* `isBlank` decides the property.
* `trimEndBlanks`, `trimBlanks` drop blanks at the end, or at both ends.
-/

namespace JsonReader.Text

/-- The code points with the property `White_Space`, as closed ranges in ascending order. -/
def blankRanges : List (Nat × Nat) :=
  [(0x9, 0xD), (0x20, 0x20), (0x85, 0x85), (0xA0, 0xA0), (0x1680, 0x1680), (0x2000, 0x200A),
    (0x2028, 0x2029), (0x202F, 0x202F), (0x205F, 0x205F), (0x3000, 0x3000)]

/-- A blank is a character that lies in one of `blankRanges`. -/
def isBlank (c : Char) : Bool :=
  blankRanges.any fun (lo, hi) => lo ≤ c.toNat && c.toNat ≤ hi

/-- Drops the blanks at the end. -/
def trimEndBlanks (s : List Char) : List Char :=
  (s.reverse.dropWhile isBlank).reverse

/-- Drops the blanks at both ends. -/
def trimBlanks (s : List Char) : List Char :=
  trimEndBlanks (s.dropWhile isBlank)

@[simp] theorem trimEndBlanks_nil : trimEndBlanks [] = [] := rfl

@[simp] theorem trimBlanks_nil : trimBlanks [] = [] := rfl

end JsonReader.Text
