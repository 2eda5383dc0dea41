import JsonReader.Parser.Scalar
import JsonReader.Value.Assembly
import JsonReader.Value.Decoder
import JsonReader.Value.Number

/-!
# Parsers for whole values

## Main definitions

* `Parser.skipValue` and `Parser.ignoreObject` read a value and drop it.
* `Parser.value` puts a value together from its tokens, `Parser.typed` decodes it further.
-/

namespace JsonReader

instance : Shown Value := ⟨Value.text⟩

namespace Parser

variable {α : Type}

/-- Reads one value of any shape. The failure names the token where the cursor got to. -/
def skipValue : Parser Unit where
  run _ c :=
    match c.advance? with
    | none => ⟨.error (.endOfStream c.position), c, []⟩
    | some c =>
      match c.skipValue, c.skipValue.2.kind? with
      | (true, d), _ => ⟨.ok (), d, []⟩
      | (false, d), some k => ⟨.error (.tokenMismatch "a value" k d.position), d, []⟩
      | (false, d), none => ⟨.error (.endOfStream d.position), d, []⟩

/-- Reads an object whatever its properties. -/
def ignoreObject : Parser Unit := do
  let _ ← TokenPattern.startObject.parser
  (⟨fun _ c =>
    match c.skipValue with
    | (true, d) => ⟨.ok (), d, []⟩
    | (false, d) => ⟨.error (.endOfStream d.position), d, []⟩⟩ : Parser Unit)

/-- Puts the next value together, no deeper than the settings allow. -/
def value (read : NumberReader := NumberValue.read?) : Parser Value where
  run s c :=
    let (result, d) := (Assembly.value .whole).run read s.maxDepth c.passed c.ahead
    ⟨result, d, []⟩

/-- Reads the next value and decodes it. A value of another shape is reported by its first
token. -/
def typed (target : String) (d : Decoder α) (read : NumberReader := NumberValue.read?) :
    Parser α where
  run s c :=
    let o := (value read).run s c
    match o.result with
    | .error e => ⟨.error e, o.cursor, o.notes⟩
    | .ok v =>
      match d v, c.advance? with
      | some a, _ => ⟨.ok a, o.cursor, o.notes⟩
      | none, some start =>
        ⟨.error (.conversion target start.describe start.position), o.cursor, o.notes⟩
      | none, none => ⟨.error (.endOfStream c.position), c, o.notes⟩

/-- A property with a given name and a value that is decoded. -/
def typedProperty (name target : String) (d : Decoder α)
    (read : NumberReader := NumberValue.read?) : Parser α := do
  let _ ← expectPropertyName name
  typed target d read

end Parser

end JsonReader
