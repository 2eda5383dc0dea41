import JsonReader.Cursor.Scalar
import JsonReader.Number.Shortest
import JsonReader.Parser.Token
import JsonReader.Url.Basic

/-!
# Parsers for scalars

A scalar parser reads exactly one token: it checks the kind first and then converts the text.

## Main definitions

* `Scalar` is a pattern, the name of the type and the reading of the current token;
  `Scalar.parser` is its parser.
* `Scalar.string`, `Scalar.integer` and the others, with `Scalar.orNull` for the nullable ones.
* `expectString` and `expectPropertyName` ask for given texts.
-/

namespace JsonReader

open Number Codec Calendar

instance {f : BinaryFormat} : Shown (Binary f) := ⟨Binary.text messageLayout⟩

instance : Shown ScaledDecimal := ⟨ScaledDecimal.text⟩

instance : Shown Guid := ⟨Guid.text⟩

instance : Shown DateTime := ⟨DateTime.text⟩

instance : Shown OffsetDateTime := ⟨OffsetDateTime.text⟩

/-- A URL is shown as its text in quotes. -/
instance : Shown Url := ⟨fun u => Text.quoted u.text⟩

/-- One token that denotes a value: the kinds it may have, the name of the type in messages, and how
the current token is read. -/
structure Scalar (α : Type) where
  token : TokenPattern
  target : String
  read : Cursor → Option α

namespace Scalar

variable {α : Type}

/-- The scalar in a message. -/
def describe (x : Scalar α) : String :=
  "Scalar \x7b token: " ++ x.token.describe ++ ", target: " ++ Text.quoted x.target ++ " \x7d"

/-- Checks the token and reads it. The token counts as read whether or not it denotes a value. -/
def parser (x : Scalar α) : Parser α where
  run s c :=
    let o := x.token.parser.run s c
    match o.result with
    | .error e => ⟨.error e, o.cursor, o.notes⟩
    | .ok _ =>
      match x.read o.cursor with
      | some a => ⟨.ok a, o.cursor, o.notes⟩
      | none =>
        ⟨.error (.conversion x.target o.cursor.describe o.cursor.position), o.cursor, o.notes⟩

/-- Takes `null` as no value, and reads any other token as before. -/
def readNullable (read : Cursor → Option α) (c : Cursor) : Option (Option α) :=
  if c.kind? = some .nullWord then some none else (read c).map some

/-- The nullable form of a scalar, for a pattern that lets `null` through. -/
def orNull (x : Scalar α) (token : TokenPattern) : Scalar (Option α) :=
  ⟨token, x.target ++ " or null", readNullable x.read⟩

def string : Scalar String := ⟨.string, "string", Cursor.text?⟩
def optionalString : Scalar (Option String) := string.orNull .stringOrNull
def propertyName : Scalar String := ⟨.propertyName, "property name", Cursor.text?⟩

def bool : Scalar Bool := ⟨.bool, "bool", Cursor.bool?⟩
def optionalBool : Scalar (Option Bool) := bool.orNull .boolOrNull

/-- An integer of the given type. -/
def integer (t : IntType) : Scalar Int := ⟨.number, t.name, Cursor.integer? t⟩

/-- An integer of the given type, or `null`. -/
def optionalInteger (t : IntType) : Scalar (Option Int) := (integer t).orNull .numberOrNull

def f32 : Scalar (Binary binary32) := ⟨.number, "f32", Cursor.binary? binary32⟩
def f64 : Scalar (Binary binary64) := ⟨.number, "f64", Cursor.binary? binary64⟩
def optionalF64 : Scalar (Option (Binary binary64)) := f64.orNull .numberOrNull

def decimal (reader : ScaledDecimal.Reader := .standard) : Scalar ScaledDecimal :=
  ⟨.number, "decimal", (Cursor.decimal? · reader)⟩
def optionalDecimal (reader : ScaledDecimal.Reader := .standard) : Scalar (Option ScaledDecimal) :=
  (decimal reader).orNull .numberOrNull

def guid (parse : Guid.Reader := Guid.parse?) : Scalar Guid :=
  ⟨.string, "guid", (Cursor.guid? · parse)⟩
def optionalGuid (parse : Guid.Reader := Guid.parse?) : Scalar (Option Guid) :=
  (guid parse).orNull .stringOrNull

def dateTime (formats : Formats := .standard) : Scalar DateTime :=
  ⟨.string, "date-time", (Cursor.dateTime? · formats)⟩
def optionalDateTime (formats : Formats := .standard) : Scalar (Option DateTime) :=
  (dateTime formats).orNull .stringOrNull
def offsetDateTime (formats : Formats := .standard) : Scalar OffsetDateTime :=
  ⟨.string, "date-time with offset", (Cursor.offsetDateTime? · formats)⟩

def bytes (decode : Base64.Decoder := Base64.decode?) : Scalar (List UInt8) :=
  ⟨.string, "base64 bytes", (Cursor.bytes? · decode)⟩

def url (read : Url.Reader := Url.read?) : Scalar Url := ⟨.string, "uri", (Cursor.url? · read)⟩
def optionalUrl (read : Url.Reader := Url.read?) : Scalar (Option Url) :=
  (url read).orNull .stringOrNull

end Scalar

namespace Parser

/-- Reads a text that has to pass a test; `expected` describes the texts that do. -/
def expectText (x : Scalar String) (expected : List String) (fits : Settings → String → Bool) :
    Parser String where
  run s c :=
    let o := x.parser.run s c
    match o.result with
    | .error _ => o
    | .ok text =>
      if fits s text then o
      else
        ⟨.error (.unexpected (" or ".intercalate expected) text o.cursor.position), o.cursor,
          o.notes⟩

/-- A string that is one of the given texts. -/
def expectString (expected : List String) : Parser String :=
  expectText .string expected fun _ text => expected.contains text

/-- Equality of texts up to the case of ASCII letters. -/
def eqIgnoringCase (a b : String) : Bool :=
  a.toList.map Char.toLower == b.toList.map Char.toLower

/-- The name of a property, up to the case of ASCII letters if the settings say so. -/
def expectPropertyName (name : String) : Parser String :=
  expectText .propertyName [name] fun s text =>
    if s.caseInsensitiveProperties then eqIgnoringCase name text else name == text

/-- A property with a string as its value, as a pair. -/
def stringProperty (name : String) : Parser (String × String) := do
  let found ← expectPropertyName name
  let text ← Scalar.string.parser
  return (found, text)

end Parser

end JsonReader
