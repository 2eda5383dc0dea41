import JsonReader.Token.Location

/-!
# Cursors

A cursor stands between two tokens of a sequence. The token just before it is the current one; there
is none until the cursor has moved. A cursor is a value, so going back is a matter of keeping it.

## Main definitions

* `Cursor` keeps the tokens behind it, the nearest first, and the tokens ahead.
* `Cursor.advance?` moves onto the next token.
* `Cursor.skipValue` moves to the end of the value that begins with the current token.
-/

namespace JsonReader

/-- A place in a sequence of tokens. -/
structure Cursor where
  passed : List LocatedToken := []
  ahead : List LocatedToken
  deriving DecidableEq, Repr

namespace Cursor

/-- The cursor before the first token. -/
def ofTokens (tokens : List LocatedToken) : Cursor := ⟨[], tokens⟩

/-- The whole sequence. -/
def tokens (c : Cursor) : List LocatedToken := c.passed.reverse ++ c.ahead

/-- The number of tokens behind the cursor. -/
def position (c : Cursor) : Nat := c.passed.length

/-- Whether no token is ahead. -/
def isFinished (c : Cursor) : Bool := c.ahead.isEmpty

/-- Moves onto the next token, if there is one. -/
def advance? (c : Cursor) : Option Cursor :=
  match c.ahead with
  | [] => none
  | t :: ahead => some ⟨t :: c.passed, ahead⟩

/-- The current token with its span. -/
def current? (c : Cursor) : Option LocatedToken := c.passed.head?

/-- The current token. -/
def token? (c : Cursor) : Option Token := c.current?.map (·.token)

/-- The kind of the current token. -/
def kind? (c : Cursor) : Option TokenKind := c.token?.map (·.kind)

/-- The kind of the next token. -/
def peekKind? (c : Cursor) : Option TokenKind := c.ahead.head?.map (·.token.kind)

/-- Line and column of the current token, or of the next one where nothing is current. -/
def location (c : Cursor) : Nat × Nat :=
  match c.current?.or c.ahead.head? with
  | some t => (t.span.line, t.span.column)
  | none => (0, 0)

/-- The current token in a message. -/
def describe (c : Cursor) : String :=
  match c.token? with
  | some t => t.text
  | none => "nothing"

@[simp] theorem position_ofTokens (ts : List LocatedToken) : (ofTokens ts).position = 0 := rfl

@[simp] theorem tokens_ofTokens (ts : List LocatedToken) : (ofTokens ts).tokens = ts := rfl

theorem advance?_cons (passed : List LocatedToken) (t : LocatedToken)
    (ahead : List LocatedToken) : advance? ⟨passed, t :: ahead⟩ = some ⟨t :: passed, ahead⟩ := rfl

theorem position_of_advance? {c d : Cursor} (h : c.advance? = some d) :
    d.position = c.position + 1 := by
  unfold advance? at h
  split at h
  · simp at h
  · cases h
    simp [position]

theorem tokens_of_advance? {c d : Cursor} (h : c.advance? = some d) : d.tokens = c.tokens := by
  unfold advance? at h
  split at h
  · simp at h
  · next ha =>
    cases h
    simp [tokens, ha]

/-- The number of open containers behind a token, of which `depth` are open before it. -/
def depthAfter (depth : Nat) (k : TokenKind) : Nat :=
  if k.isStart then depth + 1 else if k.isEnd then depth - 1 else depth

/-- Moves on until no container is open, counting starts and ends of either kind alike. Tells whether
that was reached before the tokens ran out. -/
def skipOpen : Nat → List LocatedToken → List LocatedToken → Bool × Cursor
  | 0, passed, ahead => (true, ⟨passed, ahead⟩)
  | _ + 1, passed, [] => (false, ⟨passed, []⟩)
  | depth + 1, passed, t :: ahead =>
    skipOpen (depthAfter (depth + 1) t.token.kind) (t :: passed) ahead

/-- Moves to the end of the value that begins with the current token. Tells whether the token begins
a value that is complete; where it is not, the cursor ends behind the last token. -/
def skipValue (c : Cursor) : Bool × Cursor :=
  match c.kind? with
  | some k =>
    if k.isStart then skipOpen 1 c.passed c.ahead
    else (k.isScalar, c)
  | none => (false, c)

end Cursor

end JsonReader
