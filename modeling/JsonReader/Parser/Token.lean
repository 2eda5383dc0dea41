import JsonReader.Parser.Combinators

/-!
# Parsers for single tokens

## Main definitions

* `TokenPattern` says which kinds of tokens are wanted, and whether the next or the current token is
  meant; `TokenPattern.parser` yields the kind that was found.
* `startObject`, `endObject` and the other patterns for one or two kinds.
-/

namespace JsonReader

instance : Shown TokenKind := ⟨TokenKind.name⟩

/-- The kinds of tokens that would do, and whether to move onto the next token first. -/
structure TokenPattern where
  kinds : List TokenKind
  advance : Bool := true
  deriving DecidableEq, Repr

namespace TokenPattern

/-- The pattern in a message. -/
def describe (p : TokenPattern) : String :=
  let kinds := ", ".intercalate (p.kinds.map TokenKind.name)
  "ParseToken \x7b kinds: [" ++ kinds ++ "], advance: " ++ shown p.advance ++ " \x7d"

/-- Tests the token under the cursor. -/
def check (p : TokenPattern) (c : Cursor) : Outcome ParseError TokenKind :=
  match c.kind? with
  | some k =>
    if k ∈ p.kinds then ⟨.ok k, c, []⟩
    else ⟨.error (.tokenMismatch (TokenKind.describe p.kinds) k c.position), c, []⟩
  | none => ⟨.error (.endOfStream c.position), c, []⟩

/-- Moves on if so wanted, and tests the token under the cursor. A token of another kind counts as
read. -/
def parser (p : TokenPattern) : Parser TokenKind where
  run _ c :=
    if p.advance then
      match c.advance? with
      | some d => p.check d
      | none => ⟨.error (.endOfStream c.position), c, []⟩
    else p.check c

def startObject : TokenPattern := ⟨[.objectStart], true⟩
def endObject : TokenPattern := ⟨[.objectEnd], true⟩
def startArray : TokenPattern := ⟨[.arrayStart], true⟩
def endArray : TokenPattern := ⟨[.arrayEnd], true⟩
def propertyName : TokenPattern := ⟨[.propertyName], true⟩
def string : TokenPattern := ⟨[.string], true⟩
def stringOrNull : TokenPattern := ⟨[.string, .nullWord], true⟩
def number : TokenPattern := ⟨[.number], true⟩
def numberOrNull : TokenPattern := ⟨[.number, .nullWord], true⟩
def trueWord : TokenPattern := ⟨[.trueWord], true⟩
def falseWord : TokenPattern := ⟨[.falseWord], true⟩
def bool : TokenPattern := ⟨[.trueWord, .falseWord], true⟩
def boolOrNull : TokenPattern := ⟨[.trueWord, .falseWord, .nullWord], true⟩
def null : TokenPattern := ⟨[.nullWord], true⟩

end TokenPattern

/-- The start and, right behind it, the end of an object. -/
def emptyObject : Parser TokenKind := do
  let _ ← TokenPattern.startObject.parser
  TokenPattern.endObject.parser

end JsonReader
