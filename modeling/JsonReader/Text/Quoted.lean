import JsonReader.Text.Hex
import JsonReader.Text.Printable

/-!
# Quoted text

How messages show a text: between double quotes, on one line, with every character that would not
be seen as itself written as an escape.

## Main definitions

* `quoteChar` writes one character, `quoted` a whole text.
-/

namespace JsonReader.Text

/-- The two quote marks and the common controls have short escapes; every other hidden character
is written by its code point. -/
def quoteChar (c : Char) : List Char :=
  if c = '"' then ['\\', '"']
  else if c = '\\' then ['\\', '\\']
  else if c.toNat = 0 then ['\\', '0']
  else if c = '\t' then ['\\', 't']
  else if c = '\r' then ['\\', 'r']
  else if c = '\n' then ['\\', 'n']
  else if isPrintable c then [c]
  else ['\\', 'u', Char.ofNat 0x7B] ++ hexText c.toNat ++ [Char.ofNat 0x7D]

/-- The text between double quotes, character by character. -/
def quoted (s : String) : String :=
  String.ofList ('"' :: s.toList.flatMap quoteChar ++ ['"'])

end JsonReader.Text
