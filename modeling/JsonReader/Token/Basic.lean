import JsonReader.Lexeme.Basic
import JsonReader.Text.Quoted

/-!
# Tokens

The structural tokens of a document. Names of properties are tokens of their own, colons and commas
are none, so a sequence of tokens is a document without its punctuation.

## Main definitions

* `TokenKind`, `Token` and `Token.kind`.
* `Token.text` shows a token in a message.
-/

namespace JsonReader

/-- The kind of a token without its payload. -/
inductive TokenKind
  | objectStart
  | objectEnd
  | arrayStart
  | arrayEnd
  | propertyName
  | string
  | number
  | trueWord
  | falseWord
  | nullWord
  deriving DecidableEq, Repr

namespace TokenKind

/-- The name of a kind in messages. -/
def name : TokenKind → String
  | objectStart => "ObjectStart"
  | objectEnd => "ObjectEnd"
  | arrayStart => "ArrayStart"
  | arrayEnd => "ArrayEnd"
  | propertyName => "PropertyName"
  | string => "String"
  | number => "Number"
  | trueWord => "True"
  | falseWord => "False"
  | nullWord => "Null"

/-- Every kind. -/
def all : List TokenKind :=
  [objectStart, objectEnd, arrayStart, arrayEnd, propertyName, string, number, trueWord, falseWord,
    nullWord]

/-- The kind with the given name. -/
def ofName? (s : String) : Option TokenKind := all.find? (·.name == s)

/-- Several kinds that would each do. -/
def describe (kinds : List TokenKind) : String := " or ".intercalate (kinds.map name)

/-- Opens a container. -/
def isStart (k : TokenKind) : Bool := k == objectStart || k == arrayStart

/-- Closes a container. -/
def isEnd (k : TokenKind) : Bool := k == objectEnd || k == arrayEnd

/-- A value of one token. -/
def isScalar : TokenKind → Bool
  | string | number | trueWord | falseWord | nullWord => true
  | _ => false

end TokenKind

/-- A structural token. A number keeps its source text, so its reader decides what it denotes. -/
inductive Token
  | objectStart
  | objectEnd
  | arrayStart
  | arrayEnd
  | propertyName (name : String)
  | string (text : String)
  | number (source : String)
  | bool (value : Bool)
  | null
  deriving DecidableEq, Repr

namespace Token

/-- The kind of a token. -/
def kind : Token → TokenKind
  | objectStart => .objectStart
  | objectEnd => .objectEnd
  | arrayStart => .arrayStart
  | arrayEnd => .arrayEnd
  | propertyName _ => .propertyName
  | string _ => .string
  | number _ => .number
  | bool true => .trueWord
  | bool false => .falseWord
  | null => .nullWord

/-- The token that a literal is as a value. -/
def ofLiteral : Literal → Token
  | .string text => string text
  | .number source => number source
  | .bool value => bool value
  | .null => null

/-- How a token is shown in messages: a string is quoted, a name has its colon. -/
def text : Token → String
  | objectStart => String.singleton '{'
  | objectEnd => String.singleton '}'
  | arrayStart => "["
  | arrayEnd => "]"
  | propertyName name => Text.quoted name ++ ":"
  | string text => Text.quoted text
  | number source => source
  | bool true => "true"
  | bool false => "false"
  | null => "null"

end Token

end JsonReader
