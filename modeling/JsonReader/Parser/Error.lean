import JsonReader.Text.Shown
import JsonReader.Token.Basic

/-!
# Failures of parsers

## Main definitions

* `ParseError` is the cause of a failure; positions count the tokens read so far.
* `ParseError.position?` and `ParseError.property?` look through the wrappers.
* `ParseResult` is what a parser yields, with the ways to take a value out of it.
-/

namespace JsonReader

/-- Why a parser failed. -/
inductive ParseError
  /-- A token was needed and none was left. -/
  | endOfStream (position : Nat)
  /-- The token is of another kind. -/
  | tokenMismatch (expected : String) (found : TokenKind) (position : Nat)
  /-- The text of the token denotes no value of the type. -/
  | conversion (target : String) (found : String) (position : Nat)
  /-- The value is none of those that were expected. -/
  | unexpected (expected : String) (found : String) (position : Nat)
  /-- The value did not pass a test. -/
  | rejected (found : String) (position : Nat)
  /-- The object has no such property. -/
  | unknownProperty (name : String)
  /-- The value of a property failed. -/
  | property (name : String) (inner : ParseError)
  /-- A failure that the caller asked for. -/
  | failed (text : String)
  /-- A failure with a remark. -/
  | context (message : String) (inner : ParseError)
  deriving DecidableEq, Repr

namespace ParseError

/-- The message for a reader. -/
def message : ParseError → String
  | endOfStream p => s!"Unexpected end of token stream at position {p}"
  | tokenMismatch expected found p =>
    s!"Token mismatch: expected {expected}, found {found.name} at position {p}"
  | conversion target found p => s!"Cannot convert {found} to {target} at position {p}"
  | unexpected expected found p =>
    s!"Unexpected: expected {expected}, parsed {found} at position {p}"
  | rejected found p => s!"Predicate rejected value {found} at position {p}"
  | unknownProperty name => "No handler for property \"" ++ name ++ "\""
  | property name inner => "Property \"" ++ name ++ "\": " ++ inner.message
  | failed text => "Failure: " ++ text
  | context message inner => message ++ ": " ++ inner.message

/-- The position of the innermost failure, if it has one. -/
def position? : ParseError → Option Nat
  | endOfStream p | tokenMismatch _ _ p | conversion _ _ p | unexpected _ _ p | rejected _ p =>
    some p
  | property _ inner | context _ inner => inner.position?
  | unknownProperty _ | failed _ => none

/-- The outermost property that failed, remarks aside. -/
def property? : ParseError → Option String
  | property name _ => some name
  | context _ inner => inner.property?
  | _ => none

end ParseError

/-- What a parser yields: a value or the cause of its failure. -/
abbrev ParseResult (α : Type) := Except ParseError α

/-- A failure as the result of a parser of any type. -/
def ParseError.toResult {α : Type} (e : ParseError) : ParseResult α := .error e

namespace ParseResult

variable {α β : Type}

/-- A result with a value. -/
def success (a : α) : ParseResult α := .ok a

/-- A result that failed with a text. -/
def failure (text : String) : ParseResult α := .error (.failed text)

/-- Exactly one of the two functions is applied. -/
def fold (onSuccess : α → β) (onFailure : ParseError → β) : ParseResult α → β
  | .ok a => onSuccess a
  | .error e => onFailure e

/-- Whether there is a value. -/
def isSuccess (r : ParseResult α) : Bool := r.fold (fun _ => true) (fun _ => false)

/-- The value, or one computed from the failure. -/
def getOr (alternative : ParseError → α) (r : ParseResult α) : α := r.fold id alternative

/-- Goes on with the value; a failure stays as it is. -/
def andThen (next : α → ParseResult β) : ParseResult α → ParseResult β
  | .ok a => next a
  | .error e => .error e

/-- Adds a remark to a failure. -/
def withContext (message : String) (r : ParseResult α) : ParseResult α :=
  r.mapError (.context message)

end ParseResult

instance {α : Type} [Shown α] : Shown (ParseResult α) where
  shown
    | .ok a => s!"Ok({shown a})"
    | .error e => s!"Err({e.message})"

end JsonReader
