import JsonReader.Cursor
import JsonReader.Parser.Error
import JsonReader.Value.Basic

/-!
# Assembling values

A value is put together from its tokens one token at a time. What is still open is a hole that waits
for a value, inside the containers around it. What the text of a number denotes is for the reader of
numbers to say.

## Main definitions

* `Hole` is a place for a value, `Assembly` a place where a value, an item or a name may come.
* `Assembly.step` takes one token, `Assembly.run` takes tokens until the value is complete.
-/

namespace JsonReader

/-- A place that waits for a value, with what has been read of the containers around it. Items stand
in reverse order. -/
inductive Hole
  /-- The whole value. -/
  | whole
  /-- The next item of an array. -/
  | item (items : List Value) (outer : Hole)
  /-- The value of a name of an object. -/
  | entry (entries : List (String × Value)) (name : String) (outer : Hole)

/-- What comes next. -/
inductive Assembly
  /-- A value for the hole. -/
  | value (hole : Hole)
  /-- An item of an array, or its end. -/
  | items (items : List Value) (outer : Hole)
  /-- A name of an object, or its end. -/
  | names (entries : List (String × Value)) (outer : Hole)

/-- The number of containers around a hole. -/
def Hole.depth : Hole → Nat
  | whole => 0
  | item _ outer | entry _ _ outer => outer.depth + 1

/-- Why a token does not fit. -/
inductive AssemblyError
  /-- Something else had to come. -/
  | mismatch (expected : String) (found : TokenKind)
  /-- The number text denotes no number. -/
  | badNumber (source : String)
  /-- The container nests too deep. -/
  | tooDeep (limit : Nat)
  deriving DecidableEq, Repr

/-- The failure of a parser at a position. -/
def AssemblyError.at (position : Nat) : AssemblyError → ParseError
  | mismatch expected found => .tokenMismatch expected found position
  | badNumber source => .conversion "number" source position
  | tooDeep limit => .failed s!"maximum depth {limit} exceeded at position {position}"

namespace Assembly

/-- Puts a value into its hole: either that completes the whole, or more has to come. -/
def fill (v : Value) : Hole → Value ⊕ Assembly
  | .whole => .inl v
  | .item done outer => .inr (.items (v :: done) outer)
  | .entry entries name outer => .inr (.names (Value.insert name v entries) outer)

/-- Takes the first token of a value. -/
def begin (read : NumberReader) (limit : Nat) (hole : Hole) (t : Token) :
    Except AssemblyError (Value ⊕ Assembly) :=
  match t with
  | .null => .ok (fill .null hole)
  | .bool b => .ok (fill (.bool b) hole)
  | .string s => .ok (fill (.string s) hole)
  | .number source =>
    match read source.toList with
    | some n => .ok (fill (.number n) hole)
    | none => .error (.badNumber source)
  | .arrayStart =>
    if limit ≤ hole.depth then .error (.tooDeep limit) else .ok (.inr (.items [] hole))
  | .objectStart =>
    if limit ≤ hole.depth then .error (.tooDeep limit) else .ok (.inr (.names [] hole))
  | .objectEnd | .arrayEnd | .propertyName _ => .error (.mismatch "a value" t.kind)

/-- Takes one token. -/
def step (read : NumberReader) (limit : Nat) (a : Assembly) (t : Token) :
    Except AssemblyError (Value ⊕ Assembly) :=
  match a with
  | .value hole => begin read limit hole t
  | .items done outer =>
    match t with
    | .arrayEnd => .ok (fill (.array done.reverse) outer)
    | t => begin read limit (.item done outer) t
  | .names entries outer =>
    match t with
    | .objectEnd => .ok (fill (.object entries) outer)
    | .propertyName name => .ok (.inr (.value (.entry entries name outer)))
    | t => .error (.mismatch "PropertyName or ObjectEnd" t.kind)

/-- Takes tokens until the value is complete. The token that does not fit counts as read. -/
def run (read : NumberReader) (limit : Nat) (a : Assembly) (passed : List LocatedToken) :
    List LocatedToken → ParseResult Value × Cursor
  | [] => (.error (.endOfStream passed.length), ⟨passed, []⟩)
  | t :: ahead =>
    match a.step read limit t.token with
    | .error e => (.error (e.at (passed.length + 1)), ⟨t :: passed, ahead⟩)
    | .ok (.inl v) => (.ok v, ⟨t :: passed, ahead⟩)
    | .ok (.inr more) => more.run read limit (t :: passed) ahead

end Assembly

end JsonReader
