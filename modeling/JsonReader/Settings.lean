/-!
# Settings

What a document may contain and how parsers treat it.

## Main definitions

* `TokenizerSettings` steers how a text becomes tokens.
* `Settings` adds what parsers over those tokens need.
* `SettingsError` is why settings could not be loaded.
-/

namespace JsonReader

/-- The nesting limit where none is given. -/
def defaultMaxDepth : Nat := 64

/-- Which extensions of the strict grammar a text may use, and how deep it may nest. -/
structure TokenizerSettings where
  allowComments : Bool := false
  allowTrailingCommas : Bool := false
  maxDepth : Nat := defaultMaxDepth
  deriving DecidableEq, Repr, Inhabited

/-- Settings of a whole run. `maxDepth` limits values that are rebuilt from tokens;
`caseInsensitiveProperties` lets expected property names differ in ASCII case. -/
structure Settings where
  tokenizer : TokenizerSettings := {}
  maxDepth : Nat := defaultMaxDepth
  caseInsensitiveProperties : Bool := false
  deriving DecidableEq, Repr, Inhabited

/-- Why settings could not be loaded. -/
inductive SettingsError
  | badText
  | badFile
  | noFile
  deriving DecidableEq, Repr

/-- The message for a reader. -/
def SettingsError.message : SettingsError → String
  | badText => "Failed to parse config"
  | badFile => "Failed to parse config file"
  | noFile => "Failed to open config file"

end JsonReader
