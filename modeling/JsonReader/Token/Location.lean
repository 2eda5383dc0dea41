import JsonReader.Token.Basic

/-!
# Places in a text

## Main definitions

* `Location` is a place between two characters: bytes before it, its line and its column.
* `Span` is a stretch of text, with the line and the column where it begins.
* `LocatedToken` is a token with its span.
-/

namespace JsonReader

/-- A place in a text. Offsets count bytes from zero, lines and columns count from one; a column
counts characters. -/
structure Location where
  offset : Nat := 0
  line : Nat := 1
  column : Nat := 1
  deriving DecidableEq, Repr

namespace Location

/-- A line feed begins a line; every other character, CR among them, takes a column. -/
def step (p : Location) (c : Char) : Location :=
  if c = '\n' then ⟨p.offset + c.utf8Size, p.line + 1, 1⟩
  else ⟨p.offset + c.utf8Size, p.line, p.column + 1⟩

/-- The place behind a text that begins here. -/
def after (p : Location) (s : List Char) : Location := s.foldl step p

@[simp] theorem after_nil (p : Location) : p.after [] = p := rfl

@[simp] theorem after_append (p : Location) (s t : List Char) :
    p.after (s ++ t) = (p.after s).after t := List.foldl_append

end Location

/-- A stretch of text. The default stands for a token that comes from no text. -/
structure Span where
  start : Nat := 0
  stop : Nat := 0
  line : Nat := 0
  column : Nat := 0
  deriving DecidableEq, Repr

namespace Span

/-- The stretch from a place up to an offset. -/
def ofLocation (p : Location) (stop : Nat) : Span := ⟨p.offset, stop, p.line, p.column⟩

/-- How a span is shown in messages. -/
def text (s : Span) : String :=
  s!"line: {s.line}, column: {s.column}, start: {s.start}, end: {s.stop}"

end Span

/-- A token and where it stands. -/
structure LocatedToken where
  token : Token
  span : Span := {}
  deriving DecidableEq, Repr

end JsonReader
