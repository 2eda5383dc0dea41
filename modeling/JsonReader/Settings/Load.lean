import JsonReader.Settings
import JsonReader.Settings.Outline
import JsonReader.Number.Integer
import JsonReader.Value.Basic

/-!
# Loading settings

Settings are written as an object, or as an array of the values of the fields in their order. A
field that is not given keeps its default, an unknown name is passed over, and a known name may
occur once.

## Main definitions

* `TokenizerSettings.ofOutline?`, `Settings.ofOutline?` read settings.
* `SettingsSource` is where settings come from, `SettingsSource.load` loads them.
* `TokenizerSettings.text`, `Settings.text` write them.
-/

namespace JsonReader

namespace Outline

/-- A truth value. -/
def bool? : Outline → Option Bool
  | bool b => some b
  | _ => none

/-- A natural number of 64 bits, written with digits only. -/
def natural? : Outline → Option Nat
  | number source => (Number.natural? source).filter (Number.IntType.u64.holds ·)
  | _ => none

/-- The given fields among the known ones. An array gives the first fields. -/
def fields? (known : List String) : Outline → Option (List (String × Outline))
  | array items => if items.length ≤ known.length then some (known.zip items) else none
  | object entries =>
    match entries.mapM fun (name, v) => name.map (·, v) with
    | some entries =>
      let given := entries.filter fun (name, _) => known.contains name
      if (given.map (·.1)).Nodup then some given else none
    | none => none
  | null | bool _ | number _ | string => none

/-- The value of a field, or its default if it is not given. -/
def field? {α : Type} (fields : List (String × Outline)) (name : String)
    (ofOutline? : Outline → Option α) (default : α) : Option α :=
  match fields.lookup name with
  | some v => ofOutline? v
  | none => some default

end Outline

/-- The text of fields that are written already. -/
def fieldsText (fields : List (String × String)) : String :=
  "\x7b" ++ ",".intercalate (fields.map fun (name, v) => Value.stringText name ++ ":" ++ v) ++ "\x7d"

namespace TokenizerSettings

/-- The names of the fields in order. -/
def fieldNames : List String := ["allow_comments", "allow_trailing_commas", "max_depth"]

/-- Reads the settings. -/
def ofOutline? (outline : Outline) : Option TokenizerSettings := do
  let fields ← outline.fields? fieldNames
  return {
    allowComments := ← Outline.field? fields "allow_comments" Outline.bool? false
    allowTrailingCommas := ← Outline.field? fields "allow_trailing_commas" Outline.bool? false
    maxDepth := ← Outline.field? fields "max_depth" Outline.natural? defaultMaxDepth }

/-- The compact text of the settings. -/
def text (s : TokenizerSettings) : String :=
  fieldsText [("allow_comments", Value.text (.bool s.allowComments)),
    ("allow_trailing_commas", Value.text (.bool s.allowTrailingCommas)),
    ("max_depth", toString s.maxDepth)]

end TokenizerSettings

namespace Settings

/-- The names of the fields in order. -/
def fieldNames : List String := ["tokenizer", "max_depth", "case_insensitive_properties"]

/-- Reads the settings. -/
def ofOutline? (outline : Outline) : Option Settings := do
  let fields ← outline.fields? fieldNames
  return {
    tokenizer := ← Outline.field? fields "tokenizer" TokenizerSettings.ofOutline? {}
    maxDepth := ← Outline.field? fields "max_depth" Outline.natural? defaultMaxDepth
    caseInsensitiveProperties :=
      ← Outline.field? fields "case_insensitive_properties" Outline.bool? false }

/-- The compact text of the settings. -/
def text (s : Settings) : String :=
  fieldsText [("tokenizer", s.tokenizer.text), ("max_depth", toString s.maxDepth),
    ("case_insensitive_properties", Value.text (.bool s.caseInsensitiveProperties))]

end Settings

/-- Where settings come from. -/
inductive SettingsSource
  | text (s : String)
  /-- A file with this content. Without a content there is no such file. -/
  | file (content : Option String)
  deriving DecidableEq, Repr

/-- Loads settings of either type. -/
def SettingsSource.load {α : Type} (ofOutline? : Outline → Option α) :
    SettingsSource → Except SettingsError α
  | text s =>
    match (Outline.read? s.toList).bind ofOutline? with
    | some settings => .ok settings
    | none => .error .badText
  | file (some s) =>
    match (Outline.read? s.toList).bind ofOutline? with
    | some settings => .ok settings
    | none => .error .badFile
  | file none => .error .noFile

end JsonReader
