import JsonReader.Parser.Recursive
import JsonReader.Proofs.Parser.Shift
import JsonReader.Proofs.Value.Assembly

/-!
# No parser looks back

A parser that is made from primitives which move onto a token before they look at it depends on the
tokens ahead alone. The current token is only looked at behind such a move, on the way back from a
failure too.

## Main definitions

* `Scalar.Standard` holds of the scalars of the library.
* `Parser.LooksAhead` holds of the parsers that are made from advancing primitives.

## Main statements

* `LooksAhead.shiftsTo`: by induction on how the parser is made.
* `LooksAhead.run_behind`: the same tokens, at the beginning and behind others.
-/

namespace JsonReader

/-! ## Primitives -/

namespace Scalar

/-- The scalars of the library with any readers, the nullable ones for any kinds of tokens. -/
inductive Standard : {α : Type} → Scalar α → Prop
  | string : Standard string
  | propertyName : Standard propertyName
  | bool : Standard bool
  | integer (t : Number.IntType) : Standard (integer t)
  | f32 : Standard f32
  | f64 : Standard f64
  | decimal (reader : Number.ScaledDecimal.Reader) : Standard (decimal reader)
  | guid (parse : Codec.Guid.Reader) : Standard (guid parse)
  | dateTime (formats : Calendar.Formats) : Standard (dateTime formats)
  | offsetDateTime (formats : Calendar.Formats) : Standard (offsetDateTime formats)
  | bytes (decode : Codec.Base64.Decoder) : Standard (bytes decode)
  | url (read : Url.Reader) : Standard (url read)
  | orNull {α : Type} {x : Scalar α} (hx : Standard x) (kinds : List TokenKind) :
      Standard (x.orNull ⟨kinds, true⟩)

variable {α : Type} {x : Scalar α}

/-- They move onto the next token. -/
theorem Standard.advance (hx : Standard x) : x.token.advance = true := by
  cases hx <;> rfl

/-- They read the current token and nothing else. -/
theorem Standard.read_eq (hx : Standard x) {c d : Cursor} (h : c.token? = d.token?) :
    x.read c = x.read d := by
  induction hx with
  | string | propertyName => simp only [Scalar.string, Scalar.propertyName, Cursor.text?, h]
  | bool => simp only [Scalar.bool, Cursor.bool?, h]
  | integer => simp only [Scalar.integer, Cursor.integer?, Cursor.number?, h]
  | f32 | f64 => simp only [Scalar.f32, Scalar.f64, Cursor.binary?, Cursor.number?, h]
  | decimal => simp only [Scalar.decimal, Cursor.decimal?, Cursor.number?, h]
  | guid => simp only [Scalar.guid, Cursor.guid?, Cursor.string?, h]
  | dateTime => simp only [Scalar.dateTime, Cursor.dateTime?, Cursor.string?, h]
  | offsetDateTime => simp only [Scalar.offsetDateTime, Cursor.offsetDateTime?, Cursor.string?, h]
  | bytes => simp only [Scalar.bytes, Cursor.bytes?, Cursor.string?, h]
  | url => simp only [Scalar.url, Cursor.url?, Cursor.text?, h]
  | orNull _ _ ih =>
    have hkind : c.kind? = d.kind? := by rw [Cursor.kind?, Cursor.kind?, h]
    simp only [Scalar.orNull, readNullable, hkind, ih]

end Scalar

/-- Where an advancing pattern has found its token, there is a current one. -/
theorem TokenPattern.passed_ne_nil_of_run {x : TokenPattern} (hx : x.advance = true) {s : Settings}
    {c : Cursor} {k : TokenKind} (h : (x.parser.run s c).result = .ok k) :
    (x.parser.run s c).cursor.passed ≠ [] := by
  simp only [parser, hx, if_true] at h ⊢
  cases hd : c.advance? with
  | none => simp [hd] at h
  | some d =>
    rw [cursor_check]
    exact Cursor.passed_ne_nil_of_advance? hd

/-- The failure of a token while a value is put together quotes the position of the token. -/
theorem Assembly.shifted_at {asked : String → Prop} {read : NumberReader} {limit : Nat}
    {a : Assembly} {t : Token} {e : AssemblyError} (h : a.step read limit t = .error e)
    (n p : Nat) :
    ParseError.Shifted asked limit n (e.at p) (e.at (p + n)) := by
  cases e with
  | mismatch expected found => exact .tokenMismatch expected found p
  | badNumber source => exact .conversion "number" source p
  | tooDeep l =>
    cases limit_of_step h
    exact .tooDeep p

/-- By induction on the tokens ahead. -/
theorem Assembly.shifted_run {asked : String → Prop} {before : List LocatedToken}
    (read : NumberReader) (limit : Nat) (a : Assembly) (passed ahead : List LocatedToken) :
    Outcome.Shifted asked limit before Eq
      ⟨(a.run read limit passed ahead).1, (a.run read limit passed ahead).2, []⟩
      ⟨(a.run read limit (passed ++ before.reverse) ahead).1,
        (a.run read limit (passed ++ before.reverse) ahead).2, []⟩ := by
  induction ahead generalizing a passed with
  | nil =>
    simp only [run, List.length_append, List.length_reverse]
    exact .error (.endOfStream _)
  | cons t ahead ih =>
    simp only [run, List.length_append, List.length_reverse]
    cases hstep : a.step read limit t.token with
    | error e =>
      rw [Nat.add_right_comm]
      exact .error (shifted_at hstep _ _)
    | ok next =>
      cases next with
      | inl v => exact .ok rfl
      | inr more => exact ih more (t :: passed)

namespace Parser.ShiftsTo

variable {α : Type} {asked : String → Prop} {s : Settings} {before : List LocatedToken}

theorem token {x : TokenPattern} (hx : x.advance = true) :
    ShiftsTo asked s before Eq x.parser x.parser := by
  intro c
  simp only [TokenPattern.parser, hx, if_true, Cursor.advance?_behind]
  cases hd : c.advance? with
  | none => exact .error_here .endOfStream
  | some d =>
    simp only [Option.map_some, TokenPattern.check,
      Cursor.kind?_behind (Cursor.passed_ne_nil_of_advance? hd)]
    split
    · split
      · exact .ok rfl
      · exact .error_here (.tokenMismatch _ _)
    · exact .error_here .endOfStream

/-- A scalar looks at the token that it has moved onto. -/
theorem scalar {x : Scalar α} (hx : x.Standard) : ShiftsTo asked s before Eq x.parser x.parser := by
  intro c
  have h : Outcome.Shifted asked _ before Eq (x.token.parser.run s c) _ := token hx.advance c
  have hne : ∀ k, (x.token.parser.run s c).result = .ok k →
      (x.token.parser.run s c).cursor.passed ≠ [] :=
    fun _ => TokenPattern.passed_ne_nil_of_run hx.advance
  simp only [Scalar.parser]
  generalize x.token.parser.run s c = o at h hne ⊢
  generalize x.token.parser.run s (c.behind before) = o' at h ⊢
  cases h with
  | @ok k _ d _ _ h =>
    have hne := hne k rfl
    simp only [hx.read_eq (Cursor.token?_behind hne), Cursor.describe_behind hne]
    split
    · exact .ok rfl
    · exact .error_here (.conversion _ _)
  | error h => exact .error h

theorem expectText {x : Scalar String} (hx : x.Standard) (expected : List String)
    (fits : Settings → String → Bool) :
    ShiftsTo asked s before Eq (Parser.expectText x expected fits)
      (Parser.expectText x expected fits) := by
  intro c
  have h : Outcome.Shifted asked _ before Eq (x.parser.run s c) _ := scalar hx c
  simp only [Parser.expectText]
  generalize x.parser.run s c = o, x.parser.run s (c.behind before) = o' at h ⊢
  cases h with
  | ok h =>
    subst h
    dsimp only
    split
    · exact .ok rfl
    · exact .error_here (.unexpected _ _)
  | error h => exact .error h

theorem skipValue : ShiftsTo asked s before Eq Parser.skipValue Parser.skipValue := by
  intro c
  simp only [Parser.skipValue, Cursor.advance?_behind]
  cases hd : c.advance? with
  | none => exact .error_here .endOfStream
  | some d =>
    have hne := Cursor.passed_ne_nil_of_advance? hd
    have hne' := (Cursor.leadsTo_skipValue d).passed_ne_nil hne
    simp only [Option.map_some, Cursor.skipValue_behind hne, Cursor.kind?_behind hne']
    rcases d.skipValue with ⟨_ | _, e⟩
    · cases e.kind? with
      | none => exact .error_here .endOfStream
      | some k => exact .error_here (.tokenMismatch _ _)
    · exact .ok rfl

/-- What is skipped begins with the start of the object. -/
theorem ignoreObject : ShiftsTo asked s before Eq Parser.ignoreObject Parser.ignoreObject := by
  intro c
  refine shifted_bind (token rfl c) ?_
  intro k _ _ hk
  have hne := TokenPattern.passed_ne_nil_of_run rfl hk
  generalize (TokenPattern.startObject.parser.run s c).cursor = d at hne ⊢
  simp only [Cursor.skipValue_behind hne]
  rcases d.skipValue with ⟨_ | _, e⟩
  · exact .error_here .endOfStream
  · exact .ok rfl

theorem value (read : NumberReader) :
    ShiftsTo asked s before Eq (Parser.value read) (Parser.value read) :=
  fun c => Assembly.shifted_run read s.maxDepth (.value .whole) c.passed c.ahead

theorem typed (target : String) (d : Decoder α) (read : NumberReader) :
    ShiftsTo asked s before Eq (Parser.typed target d read) (Parser.typed target d read) := by
  intro c
  have h : Outcome.Shifted asked _ before Eq ((Parser.value read).run s c) _ := value read c
  simp only [Parser.typed, Cursor.advance?_behind]
  generalize (Parser.value read).run s c = o,
    (Parser.value read).run s (c.behind before) = o' at h ⊢
  cases h with
  | @ok v _ _ _ _ h =>
    subst h
    dsimp only
    cases d v with
    | some a => exact .ok rfl
    | none =>
      cases hstart : c.advance? with
      | none => exact .error_here .endOfStream
      | some start =>
        simp only [Option.map_some, Cursor.position_behind,
          Cursor.describe_behind (Cursor.passed_ne_nil_of_advance? hstart)]
        exact .error (.conversion _ _ _)
  | error h => exact .error h

/-! ### Objects -/

/-- What is kept of a failed property is later. -/
theorem propertyEntry {select : Selector α}
    (hselect : ∀ name, ShiftsTo asked s before Eq (select name) (select name)) :
    ShiftsTo asked s before (ParseResult.Shifted asked s.maxDepth before.length Eq)
      (Parser.propertyEntry select) (Parser.propertyEntry select) := by
  refine bind (scalar .propertyName) ?_
  rintro name _ rfl -
  refine bind (capture (hselect name)) ?_
  intro result result' h _
  cases h with
  | ok h => exact pure (.ok h)
  | error h => exact pure (.error (.property name h))

theorem shifted_collect_cons {n limit : Nat} {r r' : ParseResult α} {rs rs' : List (ParseResult α)}
    (h : ParseResult.Shifted asked limit n Eq r r')
    (hs : ParseResult.Shifted asked limit n Eq (collect rs) (collect rs')) :
    ParseResult.Shifted asked limit n Eq (collect (r :: rs)) (collect (r' :: rs')) := by
  cases h with
  | ok h =>
    subst h
    simp only [collect]
    generalize collect rs = c, collect rs' = c' at hs ⊢
    cases hs with
    | ok hs => exact .ok (congrArg _ hs)
    | error h => exact .error h
  | error h => exact .error h

/-- The first failure that was kept is the first in both runs. -/
theorem startedObjectUpdater {select : Selector α}
    (hselect : ∀ name, ShiftsTo asked s before Eq (select name) (select name)) :
    ShiftsTo asked s before Eq (Parser.startedObjectUpdater select)
      (Parser.startedObjectUpdater select) := by
  refine bind (many (L := fun rs rs' =>
    ParseResult.Shifted asked s.maxDepth before.length Eq (collect rs) (collect rs')) (.ok rfl)
    (fun _ _ _ _ h hs => shifted_collect_cons h hs) (propertyEntry hselect)) ?_
  intro entries entries' h _
  refine bind (ofResult h) ?_
  rintro updaters _ rfl -
  refine bind (token rfl) ?_
  rintro _ _ rfl -
  exact pure rfl

end Parser.ShiftsTo

/-! ## Parsers -/

namespace Parser

/-- Made from primitives that move onto a token before they look at it. What a caller may fail with
has no position, and of a failure that is captured nothing but the fact is used. A parser that is
made in the course of a run depends on the settings and the number of tokens ahead. -/
inductive LooksAhead (asked : String → Prop) : {α : Type} → Parser α → Prop
  | token {x : TokenPattern} (hx : x.advance = true) : LooksAhead asked x.parser
  | scalar {α : Type} {x : Scalar α} (hx : x.Standard) : LooksAhead asked x.parser
  | expectText {x : Scalar String} (hx : x.Standard) (expected : List String)
      (fits : Settings → String → Bool) : LooksAhead asked (expectText x expected fits)
  | skipValue : LooksAhead asked skipValue
  | ignoreObject : LooksAhead asked ignoreObject
  | typed {α : Type} (target : String) (d : Decoder α) (read : NumberReader) :
      LooksAhead asked (typed target d read)
  | pure {α : Type} (a : α) : LooksAhead asked (Pure.pure a)
  | throw {α : Type} {e : ParseError} (he : e.Free asked) :
      LooksAhead asked (throw e : Parser α)
  | bind {α β : Type} {p : Parser α} {next : α → Parser β} (hp : LooksAhead asked p)
      (hnext : ∀ a, (∃ s c, (p.run s c).result = .ok a) → LooksAhead asked (next a)) :
      LooksAhead asked (p >>= next)
  | or {α : Type} {p q : Parser α} (hp : LooksAhead asked p) (hq : LooksAhead asked q) :
      LooksAhead asked (p.or q)
  | optional {α : Type} {p : Parser α} (hp : LooksAhead asked p) : LooksAhead asked p.optional
  | captured {α β : Type} {p : Parser α} {next : α → Parser β} {other : Parser β}
      (hp : LooksAhead asked p) (hnext : ∀ a, LooksAhead asked (next a))
      (hother : LooksAhead asked other) :
      LooksAhead asked (p.capture >>= fun r => r.fold next fun _ => other)
  | many {α : Type} {p : Parser α} (hp : LooksAhead asked p) : LooksAhead asked p.many
  | filter {α : Type} [Shown α] {p : Parser α} (test : α → Bool) (hp : LooksAhead asked p) :
      LooksAhead asked (p.filter test)
  | withContext {α : Type} {p : Parser α} (message : String) (hp : LooksAhead asked p) :
      LooksAhead asked (p.withContext message)
  | ofRun {α : Type} {f : Settings → Nat → Parser α} (hf : ∀ s n, LooksAhead asked (f s n)) :
      LooksAhead asked ⟨fun s c => (f s c.ahead.length).run s c⟩
  | startedObjectUpdater {α : Type} {select : Selector α}
      (hselect : ∀ name, LooksAhead asked (select name)) :
      LooksAhead asked (startedObjectUpdater select)

namespace LooksAhead

variable {asked : String → Prop} {α β γ : Type} {p : Parser α}

/-! ### Further combinators -/

theorem map (f : α → β) (hp : LooksAhead asked p) : LooksAhead asked (f <$> p) :=
  .bind hp fun a _ => .pure (f a)

theorem many1 (hp : LooksAhead asked p) : LooksAhead asked p.many1 :=
  .bind hp fun _ _ => .bind (.many hp) fun _ _ => .pure _

theorem pairWith {next : α → Parser β} (hp : LooksAhead asked p)
    (hnext : ∀ a, LooksAhead asked (next a)) (join : α → β → γ) :
    LooksAhead asked (p.pairWith next join) :=
  .bind hp fun a _ => .bind (hnext a) fun _ _ => .pure _

theorem replace (hp : LooksAhead asked p) (b : β) : LooksAhead asked (p.replace b) :=
  .bind hp fun _ _ => .pure b

theorem between {left : Parser β} {right : Parser γ} (hleft : LooksAhead asked left)
    (hp : LooksAhead asked p) (hright : LooksAhead asked right) :
    LooksAhead asked (left.between p right) :=
  .bind hleft fun _ _ => .bind hp fun _ _ => .bind hright fun _ _ => .pure _

theorem expectString (expected : List String) : LooksAhead asked (Parser.expectString expected) :=
  .expectText .string expected _

theorem expectPropertyName (name : String) : LooksAhead asked (Parser.expectPropertyName name) :=
  .expectText .propertyName [name] _

theorem objectUpdater {select : Selector α} (hselect : ∀ name, LooksAhead asked (select name)) :
    LooksAhead asked (Parser.objectUpdater select) :=
  .bind (.token rfl) fun _ _ => .startedObjectUpdater hselect

theorem object {select : Selector α} (hselect : ∀ name, LooksAhead asked (select name))
    (initial : α) : LooksAhead asked (Parser.object select initial) :=
  (objectUpdater hselect).map _

theorem startedObject {select : Selector α} (hselect : ∀ name, LooksAhead asked (select name))
    (initial : α) : LooksAhead asked (Parser.startedObject select initial) :=
  .map _ (.startedObjectUpdater hselect)

/-- A recursive grammar, if its text for a reference without end may be failed with. -/
theorem grammar {ι : Type} {δ : ι → Type}
    {family : ((i : ι) → Parser (δ i)) → (i : ι) → Parser (δ i)}
    (hfamily : ∀ references, (∀ i, LooksAhead asked (references i)) →
      ∀ i, LooksAhead asked (family references i))
    (hasked : asked "the grammar refers to itself without reading a token") (width : Nat) (i : ι) :
    LooksAhead asked (Parser.grammar width family i) := by
  have hunfolded : ∀ depth i, LooksAhead asked (unfolded family depth i) := by
    intro depth
    induction depth with
    | zero => exact fun _ => .throw hasked
    | succ depth ih => exact hfamily _ ih
  exact .ofRun (f := fun _ n => unfolded family (width * (n + 1)) i) fun _ _ => hunfolded _ i

/-! ### Runs -/

/-- By induction on how the parser is made. -/
theorem shiftsTo (hp : LooksAhead asked p) (s : Settings) (before : List LocatedToken) :
    ShiftsTo asked s before Eq p p := by
  induction hp with
  | token hx => exact .token hx
  | scalar hx => exact .scalar hx
  | expectText hx expected fits => exact .expectText hx expected fits
  | skipValue => exact .skipValue
  | ignoreObject => exact .ignoreObject
  | typed target d read => exact .typed target d read
  | pure a => exact .pure rfl
  | throw he => exact .throw he.shifted
  | bind _ _ ihp ihnext =>
    refine .bind ihp ?_
    rintro a _ rfl hrun
    exact ihnext a hrun
  | or _ _ ihp ihq => exact .or ihp ihq
  | optional _ ih => exact .optional ih
  | captured _ _ _ ihp ihnext ihother =>
    refine .bind ihp.capture ?_
    intro r r' h _
    cases h with
    | @ok a _ h => exact h ▸ ihnext a
    | error => exact ihother
  | many _ ih => exact .many (L := Eq) rfl (fun _ _ _ _ h hs => by rw [h, hs]) ih
  | filter test _ ih => exact .filter test ih
  | withContext message _ ih => exact .withContext message ih
  | ofRun _ ih => exact fun c => ih s c.ahead.length c
  | startedObjectUpdater _ ih => exact .startedObjectUpdater ih

/-- No parser looks back. On the same tokens, at the beginning and behind others, it succeeds with
the same value or fails with the same failure, positions counted from the beginning of all tokens,
and it leaves the cursor at the same token. -/
theorem run_behind (hp : LooksAhead asked p) (s : Settings) (before ts : List LocatedToken) :
    let o := p.run s (Cursor.ofTokens ts)
    let o' := p.run s ⟨before.reverse, ts⟩
    ((∃ a, o.result = .ok a ∧ o'.result = .ok a) ∨
      ∃ e e', o.result = .error e ∧ o'.result = .error e' ∧
        e.Shifted asked s.maxDepth before.length e') ∧
      o'.cursor.position = o.cursor.position + before.length ∧
      o'.cursor.ahead = o.cursor.ahead := by
  intro o o'
  have h : o.Shifted asked s.maxDepth before Eq o' := hp.shiftsTo s before (Cursor.ofTokens ts)
  clear_value o o'
  cases h with
  | ok h => exact ⟨.inl ⟨_, rfl, h ▸ rfl⟩, Cursor.position_behind, rfl⟩
  | error h => exact ⟨.inr ⟨_, _, rfl, rfl, h⟩, Cursor.position_behind, rfl⟩

/-- The first item of an array. -/
def firstItem : Parser Value :=
  TokenPattern.startArray.parser >>= fun _ => Parser.typed "Value" Decoder.value NumberValue.read?

/-- The starts of three arrays, one in the other. -/
def nestedStarts : List LocatedToken := [⟨.arrayStart, {}⟩, ⟨.arrayStart, {}⟩, ⟨.arrayStart, {}⟩]

/-- Behind two tokens the nesting limit is exceeded two positions later, and the message says so. -/
theorem run_firstItem_behind :
    (firstItem.run { maxDepth := 1 } (Cursor.ofTokens nestedStarts)).result =
        .error (.failed "maximum depth 1 exceeded at position 3") ∧
      (firstItem.run { maxDepth := 1 } ⟨[⟨.null, {}⟩, ⟨.null, {}⟩], nestedStarts⟩).result =
        .error (.failed "maximum depth 1 exceeded at position 5") := by
  have hp : LooksAhead (fun _ => False) firstItem := .bind (.token rfl) fun _ _ => .typed _ _ _
  have hfirst : (firstItem.run { maxDepth := 1 } (Cursor.ofTokens nestedStarts)).result =
      .error (.failed "maximum depth 1 exceeded at position 3") := by rfl
  have hdeep : ParseError.Shifted (fun _ => False) 1 2
      (.failed "maximum depth 1 exceeded at position 3")
      (.failed "maximum depth 1 exceeded at position 5") := .tooDeep 3
  refine ⟨hfirst, ?_⟩
  obtain ⟨⟨a, ha, -⟩ | ⟨e, e', he, he', hshifted⟩, -⟩ :=
    run_behind hp { maxDepth := 1 } [⟨.null, {}⟩, ⟨.null, {}⟩] nestedStarts
  · cases hfirst.symm.trans ha
  · cases hfirst.symm.trans he
    exact he'.trans (congrArg _ (hshifted.unique (fun _ h => h) hdeep))

end LooksAhead

end Parser

end JsonReader
