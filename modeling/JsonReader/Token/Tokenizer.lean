import JsonReader.Lexeme.Scan
import JsonReader.Token.Location
import JsonReader.Token.Structure

/-!
# Tokenizing

From a text to located tokens: the text is cut into lexemes, and these run through the document
structure. The first fault in textual order counts.

## Main definitions

* `TokenizerError` is the fault with its span.
* `tokensOf` runs a scan through the structure, `tokenize` a text.
* `tokenizeFrom` begins at any place and tells the place where it stopped, so texts can be tokenized
  one after the other with running positions.
-/

namespace JsonReader

/-- Why a text is not a document. -/
inductive TokenizerError
  /-- No lexeme begins here. -/
  | unreadable (rest : List Char) (failure : LexFailure) (span : Span)
  /-- Something else had to come. -/
  | misplaced (expected : Expected) (found : String) (span : Span)
  /-- The text ends inside a value. -/
  | unexpectedEnd (span : Span)
  /-- A container nests deeper than the limit. -/
  | tooDeep (limit : Nat) (span : Span)
  /-- The settings allow no comments. -/
  | commentRefused (span : Span)
  deriving DecidableEq, Repr

namespace TokenizerError

/-- The stretch of text at fault. -/
def span : TokenizerError → Span
  | unreadable _ _ span | misplaced _ _ span | unexpectedEnd span | tooDeep _ span
  | commentRefused span => span

/-- The characters that an unreadable rest is shown by. -/
def excerptLength : Nat := 20

/-- What stood at the place of the fault. -/
def found? : TokenizerError → Option String
  | unreadable rest _ _ => some (String.ofList (rest.take excerptLength))
  | misplaced _ found _ => some found
  | _ => none

/-- The account of what was expected. -/
def detail? : TokenizerError → Option String
  | unreadable rest failure _ => some (failure.report rest)
  | misplaced expected _ _ => some s!"expected {expected.describe}"
  | _ => none

/-- The message for a reader. -/
def message : TokenizerError → String
  | unreadable rest failure span => s!"Parse error: {failure.report rest} at position {span.text}"
  | misplaced expected _ span =>
    s!"Parse error: expected {expected.describe} at position {span.text}"
  | unexpectedEnd span => s!"Unexpected end of input at position {span.text}"
  | tooDeep limit span => s!"Maximum depth {limit} exceeded at position {span.text}"
  | commentRefused span => s!"Comments are not allowed at position {span.text}"

/-- A fault of the structure, found at a span. -/
def ofStructure (span : Span) : StructureError → TokenizerError
  | .misplaced expected found => misplaced expected found span
  | .tooDeep limit => tooDeep limit span

end TokenizerError

/-- The verdict at the end of the pieces: either no lexeme begins there, or the text ends. -/
def endOfScan (s : Structure) (here : Location) :
    Option (List Char × LexFailure) → Except TokenizerError (List LocatedToken)
  | some (rest, failure) =>
    .error (.unreadable rest failure (Span.ofLocation here (here.offset + 1)))
  | none =>
    if s.expected = .done then .ok []
    else .error (.unexpectedEnd (Span.ofLocation here here.offset))

/-- Runs the pieces of a scan through the structure, and tells where the run stopped. A piece that is
refused counts as read, a rest that no lexeme begins does not. -/
def tokensOf (settings : TokenizerSettings) (unread : Option (List Char × LexFailure)) :
    Structure → Location → List Piece → Except TokenizerError (List LocatedToken) × Location
  | s, here, [] => (endOfScan s here unread, here)
  | s, here, piece :: pieces =>
    let next := here.after piece.source
    let span := Span.ofLocation here next.offset
    match piece.lexeme, settings.allowComments with
    | .comment _, false => (.error (.commentRefused span), next)
    | lexeme, _ =>
      match s.accept settings lexeme with
      | .error e => (.error (.ofStructure span e), next)
      | .ok (none, s') => tokensOf settings unread s' next pieces
      | .ok (some token, s') =>
        let (result, last) := tokensOf settings unread s' next pieces
        (result.map (⟨token, span⟩ :: ·), last)

/-- Tokenizes a text that begins at a place, and tells the place where it stopped. -/
def tokenizeFrom (settings : TokenizerSettings) (start : Location) (text : List Char) :
    Except TokenizerError (List LocatedToken) × Location :=
  let pieces := scan text
  tokensOf settings pieces.unread {} start pieces.pieces

/-- Tokenizes several texts, one after the other. Positions run on, also behind a text that is at
fault. -/
def tokenizeEach (settings : TokenizerSettings) :
    Location → List (List Char) → List (Except TokenizerError (List LocatedToken))
  | _, [] => []
  | start, text :: texts =>
    let (result, last) := tokenizeFrom settings start text
    result :: tokenizeEach settings last texts

/-- Tokenizes a text of its own. -/
def tokenize (settings : TokenizerSettings) (text : String) :
    Except TokenizerError (List LocatedToken) :=
  (tokenizeFrom settings {} text.toList).1

end JsonReader
