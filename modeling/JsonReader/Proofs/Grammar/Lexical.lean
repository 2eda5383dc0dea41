import JsonReader.Lexeme.Basic

/-!
# The lexical grammar

What strings, numbers and trivia look like in a text, said without a lexer. A string or a number is
described by its own characters. Trivia are described together with the text behind them, since a
line comment ends only where that text begins with a line end.

## Main definitions

* `StringBody` relates what stands between the quotes of a string to the text it denotes.
* `NumberText` holds of the texts of numbers.
* `Trivia` relates a text to what is left of it behind any number of trivia.
-/

namespace JsonReader.Grammar

/-! ## Strings -/

/-- A hexadecimal digit of either case, and its value. -/
inductive HexDigit : Char → Nat → Prop
  | decimal {n : Nat} (h : n < 10) : HexDigit (Char.ofNat ('0'.toNat + n)) n
  | lower {n : Nat} (h : n < 6) : HexDigit (Char.ofNat ('a'.toNat + n)) (10 + n)
  | upper {n : Nat} (h : n < 6) : HexDigit (Char.ofNat ('A'.toNat + n)) (10 + n)

/-- Four hexadecimal digits, and the code unit that they write. -/
inductive CodeUnit : List Char → Nat → Prop
  | mk {a b c d : Char} {w x y z : Nat} (ha : HexDigit a w) (hb : HexDigit b x)
      (hc : HexDigit c y) (hd : HexDigit d z) :
      CodeUnit [a, b, c, d] (((w * 16 + x) * 16 + y) * 16 + z)

/-- The escapes of one character behind the backslash, and what they stand for. -/
def shortEscapes : List (Char × Char) :=
  [('"', '"'), ('\\', '\\'), ('/', '/'), ('b', '\x08'), ('f', '\x0C'), ('n', '\n'), ('r', '\r'),
    ('t', '\t')]

/-- One character of a string as a text may write it, and the character it stands for. A surrogate
is written only as half of a pair, the high one first. -/
inductive StringChar : List Char → Char → Prop
  | raw {c : Char} (hquote : c ≠ '"') (hslash : c ≠ '\\') (hspace : 0x20 ≤ c.toNat) :
      StringChar [c] c
  | short {e c : Char} (h : (e, c) ∈ shortEscapes) : StringChar ['\\', e] c
  | unit {ds : List Char} {n : Nat} (hu : CodeUnit ds n) (hn : n < 0xD800 ∨ 0xE000 ≤ n) :
      StringChar ('\\' :: 'u' :: ds) (Char.ofNat n)
  | pair {hs ls : List Char} {high low : Nat} (hh : CodeUnit hs high)
      (hhigh : 0xD800 ≤ high ∧ high < 0xDC00) (hl : CodeUnit ls low)
      (hlow : 0xDC00 ≤ low ∧ low < 0xE000) :
      StringChar ('\\' :: 'u' :: (hs ++ '\\' :: 'u' :: ls))
        (Char.ofNat (0x10000 + (high - 0xD800) * 0x400 + (low - 0xDC00)))

/-- What stands between the quotes of a string, and the text it denotes. -/
inductive StringBody : List Char → List Char → Prop
  | nil : StringBody [] []
  | cons {source body text : List Char} {c : Char} (hc : StringChar source c)
      (hbody : StringBody body text) : StringBody (source ++ body) (c :: text)

/-! ## Numbers -/

/-- One digit or more. -/
def Digits (ds : List Char) : Prop := ds ≠ [] ∧ ∀ d ∈ ds, d.isDigit = true

/-- A zero by itself, or digits that begin with another one. -/
def WholePart (ds : List Char) : Prop := ds = ['0'] ∨ (Digits ds ∧ ds.head? ≠ some '0')

/-- Nothing, or a point and digits. -/
def FractionPart (s : List Char) : Prop := s = [] ∨ ∃ ds, Digits ds ∧ s = '.' :: ds

/-- A sign of either kind, or nothing. -/
def SignPart (s : List Char) : Prop := s = [] ∨ s = ['+'] ∨ s = ['-']

/-- Nothing, or an exponent mark, perhaps a sign, and digits. -/
def ExponentPart (s : List Char) : Prop :=
  s = [] ∨ ∃ mark sign ds, (mark = 'e' ∨ mark = 'E') ∧ SignPart sign ∧ Digits ds ∧
    s = mark :: (sign ++ ds)

/-- The text of a number: perhaps a minus, a whole part, a fraction and an exponent. -/
inductive NumberText : List Char → Prop
  | mk {minus whole fraction exponent : List Char} (hminus : minus = [] ∨ minus = ['-'])
      (hwhole : WholePart whole) (hfraction : FractionPart fraction)
      (hexponent : ExponentPart exponent) :
      NumberText (minus ++ whole ++ fraction ++ exponent)

/-! ## Trivia -/

/-- The text ends here, or goes on with LF or CR LF. -/
def AtLineEnd (s : List Char) : Prop := s = [] ∨ s.head? = some '\n' ∨ ['\r', '\n'] <+: s

/-- Behind any number of trivia of the first text, the second one is left. Comments count as trivia
only if they are allowed; a block comment ends at the first end mark. -/
inductive Trivia (comments : Bool) : List Char → List Char → Prop
  | none {rest : List Char} : Trivia comments rest rest
  | space {s rest : List Char} (h : Trivia comments s rest) : Trivia comments (' ' :: s) rest
  | tab {s rest : List Char} (h : Trivia comments s rest) : Trivia comments ('\t' :: s) rest
  | lineFeed {s rest : List Char} (h : Trivia comments s rest) : Trivia comments ('\n' :: s) rest
  | carriageReturnLineFeed {s rest : List Char} (h : Trivia comments s rest) :
      Trivia comments ('\r' :: '\n' :: s) rest
  | carriageReturn {s rest : List Char} (h : Trivia comments s rest) :
      Trivia comments ('\r' :: s) rest
  | blockComment {content s rest : List Char} (hallowed : comments = true)
      (hcontent : ¬ ['*', '/'] <:+: content) (h : Trivia comments s rest) :
      Trivia comments ('/' :: '*' :: (content ++ '*' :: '/' :: s)) rest
  | lineComment {content s rest : List Char} (hallowed : comments = true)
      (hcontent : ∀ c ∈ content, c ≠ '\r' ∧ c ≠ '\n') (hend : AtLineEnd s)
      (h : Trivia comments s rest) : Trivia comments ('/' :: '/' :: (content ++ s)) rest

theorem Trivia.length_le {comments : Bool} {s rest : List Char} (h : Trivia comments s rest) :
    rest.length ≤ s.length := by
  induction h with
  | none => exact Nat.le_refl _
  | blockComment _ _ _ ih | lineComment _ _ _ _ ih =>
    simp only [List.length_cons, List.length_append]
    omega
  | _ =>
    simp only [List.length_cons]
    omega

end JsonReader.Grammar
