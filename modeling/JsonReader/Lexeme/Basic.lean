import JsonReader.Text.Blank

/-!
# Lexemes

The lexical units of a document, and the shape of a lexer: a function from the text that is left to
a value and the text behind it, or to the trace of what was looked for in vain.

## Main definitions

* `Delimiter`, `Literal`, `Lexeme` are the units.
* `LexFailure` is a trace, the innermost attempt first; offsets count bytes.
* `Lexer` is the type of lexers.
-/

namespace JsonReader

/-- The six characters of punctuation. -/
inductive Delimiter
  | openBrace
  | closeBrace
  | openBracket
  | closeBracket
  | colon
  | comma
  deriving DecidableEq, Repr

namespace Delimiter

/-- Every delimiter, in the order in which they are tried. -/
def all : List Delimiter := [openBrace, closeBrace, openBracket, closeBracket, colon, comma]

/-- The character of a delimiter. -/
def char : Delimiter → Char
  | openBrace => '{'
  | closeBrace => '}'
  | openBracket => '['
  | closeBracket => ']'
  | colon => ':'
  | comma => ','

/-- The delimiter with the given character. -/
def ofChar? (c : Char) : Option Delimiter := all.find? (·.char == c)

/-- The delimiter that makes up the whole text. -/
def ofString? (s : String) : Option Delimiter :=
  match s.toList with
  | [c] => ofChar? c
  | _ => none

/-- The delimiter as it stands in a document. -/
def text (d : Delimiter) : String := String.singleton d.char

@[simp] theorem ofChar?_char (d : Delimiter) : ofChar? d.char = some d := by
  cases d <;> decide

end Delimiter

/-- A scalar as a document writes it. A string is kept decoded, a number as its source text. -/
inductive Literal
  | string (text : String)
  | number (source : String)
  | bool (value : Bool)
  | null
  deriving DecidableEq, Repr

/-- A lexical unit. A comment carries its content. -/
inductive Lexeme
  | delimiter (d : Delimiter)
  | literal (l : Literal)
  | comment (content : String)
  | blank
  | newline
  deriving DecidableEq, Repr

/-- What a lexer looked for. -/
inductive LexCause
  /-- A fixed text. -/
  | tag
  /-- One of several alternatives, none of which matched. -/
  | alt
  /-- A non-empty run of characters of one class. -/
  | takeWhile1
  /-- A text up to a terminator. -/
  | takeUntil
  /-- One character. -/
  | char (c : Char)
  /-- A named construct. -/
  | context (name : String)
  deriving DecidableEq, Repr

/-- The name of a cause in a report. -/
def LexCause.name : LexCause → String
  | tag => "Tag"
  | alt => "Alt"
  | takeWhile1 => "TakeWhile1"
  | takeUntil => "TakeUntil"
  | char c => String.singleton c
  | context name => name

/-- One line of a trace: what was looked for, that many bytes behind the start of the input. -/
structure LexStep where
  offset : Nat
  cause : LexCause
  deriving DecidableEq, Repr

/-- The trace of a lexer that gave up, the innermost attempt first. -/
abbrev LexFailure := List LexStep

/-- A lexer reads a value off the front of a text. -/
abbrev Lexer (α : Type) := List Char → Except LexFailure (α × List Char)

/-- A lexer advances when what it leaves is a shorter end of its input. -/
def Lexer.Advances {α : Type} (p : Lexer α) : Prop :=
  ∀ ⦃s a rest⦄, p s = .ok (a, rest) → rest <:+ s ∧ rest.length < s.length

/-- What a lexer leaves behind a first character is a shorter end. -/
theorem suffix_and_lt_of_suffix_cons {rest s : List Char} {c : Char} (h : rest <:+ s) :
    rest <:+ c :: s ∧ rest.length < (c :: s).length :=
  ⟨h.trans (List.suffix_cons c s), Nat.lt_succ_of_le h.length_le⟩

/-- The first line of a text without its line end and without blanks before it. -/
def firstLine (s : List Char) : List Char :=
  Text.trimEndBlanks (s.takeWhile (· != '\n'))

/-- A report numbers the lines of the trace and shows the first line of the input below each. It is
meant for a trace that has not moved, so its mark stands below the first character. -/
def LexFailure.report (failure : LexFailure) (input : List Char) : String :=
  let line := String.ofList (firstLine input)
  String.join <| failure.zipIdx.map fun (step, i) =>
    s!"{i}: at line 1, in {step.cause.name}:\n{line}\n^\n\n"

end JsonReader
