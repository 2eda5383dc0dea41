import JsonReader.Settings
import JsonReader.Token.Basic

/-!
# Document structure

Checks nesting and punctuation lexeme by lexeme, and decides which strings are property names.

## Main definitions

* `Expected` says what may come next, `Structure` adds the containers that are open.
* `Structure.accept` takes one lexeme and yields at most one token.
-/

namespace JsonReader

/-- The two kinds of containers. -/
inductive Container
  | object
  | array
  deriving DecidableEq, Repr

/-- What may come next. The two cases with an end are the first place in a container and, if the
settings allow it, the place behind a comma. -/
inductive Expected
  | value
  | valueOrEnd
  | keyOrEnd
  | key
  | colon
  | commaOrEnd
  | done
  deriving DecidableEq, Repr

/-- The wording in messages. -/
def Expected.describe : Expected → String
  | value => "a value"
  | valueOrEnd => "a value or ']'"
  | keyOrEnd => "a property name or '\x7d'"
  | key => "a property name"
  | colon => "':'"
  | commaOrEnd => "',' or the end of the container"
  | done => "the end of input"

/-- Where a document stands: its open containers, the innermost first, and what may come next. -/
structure Structure where
  stack : List Container := []
  expected : Expected := .value
  deriving DecidableEq, Repr

/-- Why a lexeme is not accepted. -/
inductive StructureError
  /-- Something else had to come. -/
  | misplaced (expected : Expected) (found : String)
  /-- One more container would nest deeper than the limit. -/
  | tooDeep (limit : Nat)
  deriving DecidableEq, Repr

namespace Structure

/-- The state behind a complete value. -/
def afterValue (stack : List Container) : Structure :=
  ⟨stack, if stack.isEmpty then .done else .commaOrEnd⟩

/-- Opens a container, unless the limit is reached. -/
def enter (settings : TokenizerSettings) (s : Structure) (c : Container) (next : Expected)
    (token : Token) : Except StructureError (Option Token × Structure) :=
  if settings.maxDepth ≤ s.stack.length then .error (.tooDeep settings.maxDepth)
  else .ok (some token, ⟨c :: s.stack, next⟩)

/-- Closes the innermost container. -/
def leave (s : Structure) (token : Token) : Except StructureError (Option Token × Structure) :=
  .ok (some token, afterValue s.stack.tail)

/-- What may follow a comma in the innermost container. -/
def afterComma (settings : TokenizerSettings) (stack : List Container) : Expected :=
  match stack.head?, settings.allowTrailingCommas with
  | some .object, true => .keyOrEnd
  | some .object, false => .key
  | _, true => .valueOrEnd
  | _, false => .value

/-- A lexeme is misplaced. -/
def reject (s : Structure) (found : String) : Except StructureError (Option Token × Structure) :=
  .error (.misplaced s.expected found)

/-- Takes a literal: a string where a name may stand is a name. -/
def acceptLiteral (s : Structure) (l : Literal) :
    Except StructureError (Option Token × Structure) :=
  match s.expected, l with
  | .keyOrEnd, .string name | .key, .string name =>
    .ok (some (.propertyName name), ⟨s.stack, .colon⟩)
  | .value, l | .valueOrEnd, l => .ok (some (.ofLiteral l), afterValue s.stack)
  | _, l => s.reject (Token.ofLiteral l).text

/-- Takes a delimiter. -/
def acceptDelimiter (settings : TokenizerSettings) (s : Structure) (d : Delimiter) :
    Except StructureError (Option Token × Structure) :=
  match s.expected, d with
  | .keyOrEnd, .closeBrace => s.leave .objectEnd
  | .colon, .colon => .ok (none, ⟨s.stack, .value⟩)
  | .valueOrEnd, .closeBracket => s.leave .arrayEnd
  | .value, .openBrace | .valueOrEnd, .openBrace => s.enter settings .object .keyOrEnd .objectStart
  | .value, .openBracket | .valueOrEnd, .openBracket =>
    s.enter settings .array .valueOrEnd .arrayStart
  | .commaOrEnd, .comma => .ok (none, ⟨s.stack, afterComma settings s.stack⟩)
  | .commaOrEnd, .closeBrace =>
    if s.stack.head? = some .object then s.leave .objectEnd else s.reject d.text
  | .commaOrEnd, .closeBracket =>
    if s.stack.head? = some .array then s.leave .arrayEnd else s.reject d.text
  | _, d => s.reject d.text

/-- Takes one lexeme and yields the token that it is, if any. Trivia change nothing. -/
def accept (settings : TokenizerSettings) (s : Structure) :
    Lexeme → Except StructureError (Option Token × Structure)
  | .literal l => s.acceptLiteral l
  | .delimiter d => s.acceptDelimiter settings d
  | .comment _ | .blank | .newline => .ok (none, s)

end Structure

end JsonReader
