import JsonReader.Parser.Error
import JsonReader.Token.Tokenizer

/-!
# Failures of a whole run

## Main definitions

* `Failure` is why no value came out of a run.
-/

namespace JsonReader

/-- Why no value came out of a run. -/
inductive Failure
  /-- The text is not a document. -/
  | tokenizer (e : TokenizerError)
  /-- A parser that had to succeed failed with its cursor at this line and column. -/
  | parse (e : ParseError) (line column : Nat)
  /-- A result that had to be a success was not; nothing tells where. -/
  | failed (e : ParseError)
  /-- The settings could not be loaded. -/
  | settings (e : SettingsError)
  deriving DecidableEq, Repr

namespace Failure

/-- The message for a reader. -/
def message : Failure → String
  | tokenizer e => "Tokenizer error: " ++ e.message
  | parse e line column => s!"Parse error at line {line}, column {column}: {e.message}"
  | failed e => "Parse error: " ++ e.message
  | settings e => "Config error: " ++ e.message

/-- The failure of a parser, if that is the cause. -/
def parseError? : Failure → Option ParseError
  | parse e _ _ | failed e => some e
  | tokenizer _ | settings _ => none

end Failure

/-- Takes the value out of a result; a failure ends the run. -/
def ParseResult.toValue {α : Type} (r : ParseResult α) : Except Failure α :=
  r.mapError Failure.failed

end JsonReader
