import JsonReader.Number.Integer
import JsonReader.Number.Shortest
import JsonReader.Text.Hex

/-!
# Document values

A document as a tree of values. An object keeps one value for each name, in the order of the names.

## Main definitions

* `NumberValue` is an integer of 64 bits or a floating-point number, `NumberReader` a reading of
  number texts.
* `Value` is a tree, `Value.text` its compact text.
* `Value.insert` puts an entry into an object in order, replacing one of the same name.
-/

namespace JsonReader

open Number

/-- A number: an integer where it fits in 64 bits with or without a sign, else a binary one. -/
inductive NumberValue
  | integer (n : Int)
  | float (x : Binary binary64)
  deriving DecidableEq, Repr

/-- What the texts of numbers denote. -/
abbrev NumberReader := List Char → Option NumberValue

/-- The compact text of a number. -/
def NumberValue.text : NumberValue → String
  | integer n => toString n
  | float x => x.text documentLayout

/-- A document as a tree. -/
inductive Value
  | null
  | bool (b : Bool)
  | number (n : NumberValue)
  | string (s : String)
  | array (items : List Value)
  | object (entries : List (String × Value))
  deriving Repr

namespace Value

/-- The escape of a character in the text of a string: quote marks and controls have one. -/
def escapeChar (c : Char) : List Char :=
  if c = '"' then ['\\', '"']
  else if c = '\\' then ['\\', '\\']
  else if c = '\x08' then ['\\', 'b']
  else if c = '\x0C' then ['\\', 'f']
  else if c = '\n' then ['\\', 'n']
  else if c = '\r' then ['\\', 'r']
  else if c = '\t' then ['\\', 't']
  else if c.toNat < 0x20 then ['\\', 'u'] ++ Text.hexPadded 4 c.toNat
  else [c]

/-- The text of a string. -/
def stringText (s : String) : String :=
  String.ofList ('"' :: s.toList.flatMap escapeChar ++ ['"'])

mutual

/-- The compact text of a value. -/
def text : Value → String
  | null => "null"
  | bool true => "true"
  | bool false => "false"
  | number n => n.text
  | string s => stringText s
  | array items => "[" ++ ",".intercalate (itemTexts items) ++ "]"
  | object entries => "\x7b" ++ ",".intercalate (entryTexts entries) ++ "\x7d"

/-- The texts of items. -/
def itemTexts : List Value → List String
  | [] => []
  | v :: items => v.text :: itemTexts items

/-- The texts of entries. -/
def entryTexts : List (String × Value) → List String
  | [] => []
  | (name, v) :: entries => (stringText name ++ ":" ++ v.text) :: entryTexts entries

end

/-- Puts an entry in its place by name. An entry of the same name is replaced. -/
def insert (name : String) (v : Value) : List (String × Value) → List (String × Value)
  | [] => [(name, v)]
  | (other, w) :: entries =>
    if name < other then (name, v) :: (other, w) :: entries
    else if name = other then (name, v) :: entries
    else (other, w) :: insert name v entries

/-- The value of a name. -/
def lookup (name : String) (entries : List (String × Value)) : Option Value :=
  (entries.find? (·.1 == name)).map (·.2)

end Value

end JsonReader
