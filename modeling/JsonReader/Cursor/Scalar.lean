import JsonReader.Calendar.Reader
import JsonReader.Codec.Base64
import JsonReader.Codec.Guid
import JsonReader.Cursor
import JsonReader.Number.Integer
import JsonReader.Number.ScaledDecimal
import JsonReader.Number.Scientific
import JsonReader.Url.Reader

/-!
# Reading the current token

What the current token denotes as a value of some type. There is no answer where it is of another
kind or its text denotes no value of the type. How decimals, identifiers, times, bytes and URLs are
spelled is for a reader to say, which is the one of this library unless another is given.

## Main definitions

* `Cursor.text?` takes strings and names of properties, `Cursor.string?` strings alone.
* `Cursor.integer?`, `Cursor.binary?`, `Cursor.decimal?` read numbers.
* `Cursor.guid?`, `Cursor.dateTime?`, `Cursor.offsetDateTime?`, `Cursor.bytes?` and `Cursor.url?`
  read strings.
-/

namespace JsonReader.Cursor

open Number Codec Calendar

/-- The text of a string or of the name of a property. -/
def text? (c : Cursor) : Option String :=
  match c.token? with
  | some (.string s) | some (.propertyName s) => some s
  | _ => none

/-- The text of a string. -/
def string? (c : Cursor) : Option String :=
  match c.token? with
  | some (.string s) => some s
  | _ => none

/-- The source text of a number. -/
def number? (c : Cursor) : Option String :=
  match c.token? with
  | some (.number s) => some s
  | _ => none

/-- A truth value. -/
def bool? (c : Cursor) : Option Bool :=
  match c.token? with
  | some (.bool b) => some b
  | _ => none

/-- A number as a value of an integer type. -/
def integer? (t : IntType) (c : Cursor) : Option Int := c.number?.bind fun s => t.read? s.toList

/-- A number as a finite value of a binary format. -/
def binary? (f : BinaryFormat) (c : Cursor) : Option (Binary f) :=
  c.number?.bind fun s => Binary.read? f s.toList

/-- A number as a scaled decimal. -/
def decimal? (c : Cursor) (reader : ScaledDecimal.Reader := .standard) : Option ScaledDecimal :=
  c.number?.bind fun s => reader.read? s.toList

/-- A string as an identifier, if it is as long as the hyphenated form. -/
def guid? (c : Cursor) (parse : Guid.Reader := Guid.parse?) : Option Guid :=
  c.string?.bind fun s => if s.utf8ByteSize = Guid.textSize then parse s.toList else none

/-- A string as a time in UTC. -/
def dateTime? (c : Cursor) (formats : Formats := .standard) : Option DateTime :=
  c.string?.bind fun s => readDateTime? formats s.toList

/-- A string as a local time with its offset. -/
def offsetDateTime? (c : Cursor) (formats : Formats := .standard) : Option OffsetDateTime :=
  c.string?.bind fun s => readOffsetDateTime? formats s.toList

/-- A string as bytes in base 64. -/
def bytes? (c : Cursor) (decode : Base64.Decoder := Base64.decode?) : Option (List UInt8) :=
  c.string?.bind fun s => decode s.toList

/-- A string or a name as an absolute URL. -/
def url? (c : Cursor) (read : Url.Reader := Url.read?) : Option Url :=
  c.text?.bind fun s => read s.toList

end JsonReader.Cursor
