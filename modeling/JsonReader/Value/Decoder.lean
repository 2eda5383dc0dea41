import JsonReader.Value.Basic

/-!
# Decoders

From values to values of a type. A decoder has no answer where the value has another shape.

## Main definitions

* `Decoder` is the type, with one decoder for each shape: `Decoder.integer`, `Decoder.list` and so on.
-/

namespace JsonReader

open Number

/-- A partial function from document values. -/
abbrev Decoder (α : Type) := Value → Option α

namespace Decoder

variable {α β γ : Type}

/-- Any value. -/
def value : Decoder Value := some

/-- An integer in the range of the type. -/
def integer (t : IntType) : Decoder Int
  | .number (.integer n) => if t.holds n then some n else none
  | _ => none

/-- Any number, an integer being rounded. -/
def float : Decoder (Binary binary64)
  | .number (.integer n) => some ⟨n < 0, binary64.nearest n.natAbs 1⟩
  | .number (.float x) => some x
  | _ => none

def bool : Decoder Bool
  | .bool b => some b
  | _ => none

def string : Decoder String
  | .string s => some s
  | _ => none

/-- The value `null`. -/
def unit : Decoder Unit
  | .null => some ()
  | _ => none

/-- `null`, or what the decoder takes. -/
def option (d : Decoder α) : Decoder (Option α)
  | .null => some none
  | v => (d v).map some

/-- An array whose items the decoder takes. -/
def list (d : Decoder α) : Decoder (List α)
  | .array items => items.mapM d
  | _ => none

/-- An object whose values the decoder takes. -/
def map (d : Decoder α) : Decoder (List (String × α))
  | .object entries => entries.mapM fun (name, v) => (d v).map (name, ·)
  | _ => none

/-- An array of two items. -/
def pair (first : Decoder α) (second : Decoder β) : Decoder (α × β)
  | .array [a, b] => do return (← first a, ← second b)
  | _ => none

/-- An object with two given names, others being ignored, or an array of two items. -/
def record (firstName : String) (first : Decoder α) (secondName : String) (second : Decoder β) :
    Decoder (α × β)
  | .object entries => do
    let a ← Value.lookup firstName entries
    let b ← Value.lookup secondName entries
    return (← first a, ← second b)
  | v => pair first second v

/-- One of some names: as a string, or as the one name of an object whose value is `null`. -/
def variant (names : List String) : Decoder String
  | .string s => if names.contains s then some s else none
  | .object [(name, .null)] => if names.contains name then some name else none
  | _ => none

end Decoder

end JsonReader
